import LoraSerial.Device.Radio
import LoraSerial.Library.Run
import LoraSerial.ModeSwitch.Engine
import Mathlib.Tactic.ByContra

/-!
Owns one board's mode-switch engine beside its radio: boot, the service loop, and every
command, frame and fallback that touches either. Timers other than the probation, and
the link, are not part of it.
-/

namespace LoraSerial.Device

open Library.Run

/-- The engine and the radio it drives. -/
structure Node where
  radio : Radio
  ms : ModeSwitch
deriving DecidableEq, Repr

/-- `g_modesw.probation_ms` -/
def probationMs : UInt32 := 4000

namespace Node

/-- `g_modesw.Begin(g_radio.CurrentModeIndex())` -/
def beginModeSwitch (node : Node) : Node :=
  { node with ms := .begin probationMs node.radio.currentModeIndex }

def setup (built saved : PhyConfig) : Node :=
  let radio := Radio.setup built saved
  { radio := radio, ms := .begin probationMs radio.currentModeIndex }

/-- The result of `ApplyModeByIndex` is ignored. -/
def serviceModeSwitch (node : Node) (now : UInt32) : Node :=
  match node.ms.takeApply now with
  | none => node
  | some (idx, ms) => { radio := (node.radio.applyModeByIndex (some idx)).2, ms := ms }

/-- A preset chosen by `AT+MODE=` or in the menu. -/
def pinMode (node : Node) (isInitiator : Bool) (idx : Nat) : Node :=
  if isInitiator then
    if some idx = node.radio.currentModeIndex then node
    else { node with ms := node.ms.request idx }
  else beginModeSwitch { node with radio := (node.radio.applyModeByIndex (some idx)).2 }

def atMode (node : Node) (isInitiator : Bool) (name : String) : Node :=
  match modeIndexByName name with
  | none => node
  | some idx => node.pinMode isInitiator idx

def atFmode (node : Node) (name : String) : Node :=
  let applied := node.radio.applyModeByName name
  if applied.1 then beginModeSwitch { node with radio := applied.2 } else node

def factoryReset (node : Node) (built : PhyConfig) : Node :=
  beginModeSwitch { node with radio := { node.radio with cfg := built }.applyMode built }

/-- `MaybeRendezvous` past its timers. -/
def rendezvous (node : Node) : Node :=
  if node.radio.currentModeIndex ≠ some medium then
    beginModeSwitch { node with radio := (node.radio.applyModeByIndex (some medium)).2 }
  else node

end Node

/-- What a board does with its engine or its radio. `elected` is the second `Begin` of
`Setup`, `requested` and `aborted` are the calls of the adaptive data rate. -/
inductive NodeAction where
  | reboot (built saved : PhyConfig)
  | elected
  | polled (now taken : UInt32)
  | heard (nib : UInt8) (isInitiator : Bool)
  | serviced (taken : UInt32)
  | sent (taken : UInt32)
  | requested (idx : Nat)
  | aborted
  | atMode (isInitiator : Bool) (name : String)
  | menuMode (isInitiator : Bool) (idx : Fin rfModeCount)
  | atFmode (name : String)
  | factoryReset (built : PhyConfig)
  | rendezvous
  | reinit

namespace NodeAction

/-- The engine as `ServiceModeSwitch` finds it, in the steps that call it. -/
def served (node : Node) : NodeAction → Option ModeSwitch
  | .polled now _ => some (node.ms.poll now)
  | .serviced _ => some node.ms
  | .sent _ => some node.ms.afterSend
  | _ => none

/-- A step in which a probation runs out. -/
def expires (node : Node) : NodeAction → Bool
  | .polled now _ => node.ms.expires now
  | _ => false

/-- A step that calls `Begin`. -/
def begins (node : Node) : NodeAction → Bool
  | .reboot _ _ | .elected | .factoryReset _ => true
  | .atMode isInitiator name => !isInitiator && (modeIndexByName name).isSome
  | .menuMode isInitiator _ => !isInitiator
  | .atFmode name => (node.radio.applyModeByName name).1
  | .rendezvous => node.radio.currentModeIndex ≠ some medium
  | _ => false

end NodeAction

def Node.step (node : Node) : NodeAction → Node
  | .reboot built saved => .setup built saved
  | .elected => node.beginModeSwitch
  | .polled now taken => { node with ms := node.ms.poll now }.serviceModeSwitch taken
  | .heard nib isInitiator => { node with ms := node.ms.afterRecv nib isInitiator }
  | .serviced taken => node.serviceModeSwitch taken
  | .sent taken => { node with ms := node.ms.afterSend }.serviceModeSwitch taken
  | .requested idx => { node with ms := node.ms.request idx }
  | .aborted => { node with ms := node.ms.abort }
  | .atMode isInitiator name => node.atMode isInitiator name
  | .menuMode isInitiator idx => node.pinMode isInitiator idx
  | .atFmode name => node.atFmode name
  | .factoryReset built => node.factoryReset built
  | .rendezvous => node.rendezvous
  | .reinit => { node with radio := node.radio.reinit }

/-! ### Engine and radio together -/

/-- A board, and the radio settings it had before the last switch. -/
structure Watched where
  node : Node
  before : Radio
deriving DecidableEq, Repr

namespace Watched

def start (built saved : PhyConfig) : Watched where
  node := .setup built saved
  before := .setup built saved

def step (w : Watched) (action : NodeAction) : Watched :=
  let next := w.node.step action
  { node := next
    before :=
      if action.begins w.node then next.radio
      else if next.ms.current ≠ w.node.ms.current then w.node.radio
      else w.before }

/-- After each service the engine names the radio's mode, and a probation that runs out
brings back the settings from before the switch. -/
def Mirrors (w : Watched) (action : NodeAction) : Prop :=
  ((action.served w.node).isSome →
      (w.node.step action).ms.current = (w.node.step action).radio.currentModeIndex) ∧
    (action.expires w.node → (w.node.step action).radio = w.before)

instance (w : Watched) (action : NodeAction) : Decidable (w.Mirrors action) :=
  inferInstanceAs (Decidable (_ ∧ _))

/-- No pending index is outside the table, and no probation runs out that began on
settings outside it. -/
def Preset (w : Watched) (action : NodeAction) : Prop :=
  (∀ ms ∈ action.served w.node, ∀ idx ∈ ms.apply, idx < rfModeCount) ∧
    (action.expires w.node → w.node.ms.prev ≠ none)

/-- `current` and `prev` are the indices of the radio now and before the switch. -/
structure Faithful (w : Watched) : Prop where
  radio : w.node.radio.Coherent
  before : w.before.Coherent
  current : w.node.ms.current = w.node.radio.currentModeIndex
  prev : w.node.ms.prev = w.before.currentModeIndex
  probation : w.node.ms.probation = true → w.node.ms.current ≠ none

theorem faithful_start (built saved : PhyConfig) : (start built saved).Faithful where
  radio := Radio.coherent_setup built saved
  before := Radio.coherent_setup built saved
  current := rfl
  prev := rfl
  probation := nofun

variable {w : Watched} {action : NodeAction}

/-! ### One step -/

theorem step_of_served {node : Node} {ms : ModeSwitch} (served : action.served node = some ms) :
    ∃ taken, node.step action = { node with ms := ms }.serviceModeSwitch taken := by
  cases action with
  | polled now taken | serviced taken | sent taken =>
      cases served
      exact ⟨taken, rfl⟩
  | _ => cases served

/-- The engine a service finds still has the modes and the probation of the step before. -/
theorem served_modes {node : Node} {ms : ModeSwitch} (served : action.served node = some ms) :
    ms.current = node.ms.current ∧ ms.prev = node.ms.prev ∧
      (ms.probation = true → node.ms.probation = true) := by
  cases action with
  | polled now taken =>
      cases served
      exact ⟨ModeSwitch.poll_current _ _, ModeSwitch.poll_prev _ _,
        ModeSwitch.probation_of_poll _⟩
  | serviced taken =>
      cases served
      exact ⟨rfl, rfl, id⟩
  | sent taken =>
      cases served
      exact ⟨ModeSwitch.afterSend_current _, ModeSwitch.afterSend_prev _, by simp⟩
  | _ => cases served

theorem served_of_begins {node : Node} (begins : action.begins node = true) :
    action.served node = none := by
  cases action <;> first | rfl | cases begins

/-- A step that restarts the engine does so on the radio it leaves. -/
theorem step_of_begins {node : Node} (coherent : node.radio.Coherent)
    (begins : action.begins node = true) :
    ∃ radio : Radio, radio.Coherent ∧
      node.step action = Node.beginModeSwitch { node with radio := radio } := by
  have pinned : ∀ idx, node.pinMode false idx =
      Node.beginModeSwitch { node with radio := (node.radio.applyModeByIndex (some idx)).2 } :=
    fun _ => rfl
  cases action with
  | reboot built saved => exact ⟨_, Radio.coherent_setup built saved, rfl⟩
  | elected => exact ⟨_, coherent, rfl⟩
  | factoryReset built => exact ⟨_, .lora built, rfl⟩
  | atMode isInitiator name =>
      simp only [NodeAction.begins, Bool.and_eq_true, Bool.not_eq_true'] at begins
      obtain ⟨rfl, named⟩ := begins
      obtain ⟨idx, named⟩ := Option.isSome_iff_exists.mp named
      refine ⟨_, Radio.coherent_applyModeByIndex coherent (some idx), ?_⟩
      simp only [Node.step, Node.atMode, named, pinned]
  | menuMode isInitiator idx =>
      simp only [NodeAction.begins, Bool.not_eq_true'] at begins
      obtain rfl := begins
      exact ⟨_, Radio.coherent_applyModeByIndex coherent (some idx.val), pinned idx.val⟩
  | atFmode name =>
      refine ⟨_, Radio.coherent_applyModeByIndex coherent (modeIndexByName name), ?_⟩
      exact if_pos begins
  | rendezvous =>
      refine ⟨_, Radio.coherent_applyModeByIndex coherent (some medium), ?_⟩
      exact if_pos (of_decide_eq_true begins)
  | _ => cases begins

/-- The other steps leave the modes of the engine and the radio alone. -/
theorem step_of_not_begins {node : Node} (coherent : node.radio.Coherent)
    (running : action.begins node = false) (unserved : action.served node = none) :
    (node.step action).radio = node.radio ∧ (node.step action).ms.current = node.ms.current ∧
      (node.step action).ms.prev = node.ms.prev ∧
      ((node.step action).ms.probation = true → node.ms.probation = true) := by
  have same : ∀ {next : Node}, next = node → next.radio = node.radio ∧
      next.ms.current = node.ms.current ∧ next.ms.prev = node.ms.prev ∧
      (next.ms.probation = true → node.ms.probation = true) := by
    rintro _ rfl
    exact ⟨rfl, rfl, rfl, id⟩
  have pinned : ∀ idx, (node.pinMode true idx).radio = node.radio ∧
      (node.pinMode true idx).ms.current = node.ms.current ∧
      (node.pinMode true idx).ms.prev = node.ms.prev ∧
      ((node.pinMode true idx).ms.probation = true → node.ms.probation = true) := by
    intro idx
    unfold Node.pinMode
    simp only [if_true]
    split
    · exact ⟨rfl, rfl, rfl, id⟩
    · exact ⟨rfl, by simp, by simp, by simp⟩
  cases action with
  | reboot | elected | factoryReset => cases running
  | polled | serviced | sent => cases unserved
  | heard nib isInitiator => exact ⟨rfl, by simp [Node.step], by simp [Node.step], by simp [Node.step]⟩
  | requested idx => exact ⟨rfl, by simp [Node.step], by simp [Node.step], by simp [Node.step]⟩
  | aborted => exact ⟨rfl, rfl, rfl, id⟩
  | atMode isInitiator name =>
      simp only [Node.step, Node.atMode]
      cases named : modeIndexByName name with
      | none => exact ⟨rfl, rfl, rfl, id⟩
      | some idx =>
          simp only [NodeAction.begins, named, Option.isSome_some, Bool.and_true,
            Bool.not_eq_false'] at running
          obtain rfl := running
          exact pinned idx
  | menuMode isInitiator idx =>
      simp only [NodeAction.begins, Bool.not_eq_false'] at running
      obtain rfl := running
      exact pinned idx.val
  | atFmode name =>
      have stays : node.atFmode name = node := if_neg (Bool.not_eq_true _ ▸ running)
      exact same stays
  | rendezvous =>
      have stays : node.rendezvous = node := if_neg (of_decide_eq_false running)
      exact same stays
  | reinit => exact ⟨coherent.reinit, rfl, rfl, id⟩

/-- A service applies the pending index of the table, or does nothing. -/
theorem service_cases (node : Node) (taken : UInt32)
    (inside : ∀ idx ∈ node.ms.apply, idx < rfModeCount) :
    (node.ms.apply = none ∧ node.serviceModeSwitch taken = node) ∨
      ∃ idx, node.ms.apply = some idx ∧ idx < rfModeCount ∧
        (node.serviceModeSwitch taken).radio = (node.radio.applyModeByIndex (some idx)).2 ∧
        (node.serviceModeSwitch taken).ms.current = some idx ∧
        (node.serviceModeSwitch taken).ms.prev =
          if some idx ≠ node.ms.current then node.ms.current else node.ms.prev := by
  cases pending : node.ms.apply with
  | none => exact Or.inl ⟨rfl, by simp [Node.serviceModeSwitch, ModeSwitch.takeApply, pending]⟩
  | some idx =>
      refine Or.inr ⟨idx, rfl, inside idx pending, ?_⟩
      simp [Node.serviceModeSwitch, ModeSwitch.takeApply, pending]

/-- A service of an engine with the modes of the step before. -/
theorem Faithful.served (faithful : w.Faithful) {ms : ModeSwitch}
    (served : action.served w.node = some ms) (fine : w.Preset action) :
    (w.step action).Faithful := by
  obtain ⟨coherent, beforeCoherent, current, prev, probation⟩ := faithful
  obtain ⟨taken, serviced⟩ := step_of_served served
  obtain ⟨msCurrent, msPrev, msProbation⟩ := served_modes served
  have running : action.begins w.node = false := by
    cases begins : action.begins w.node with
    | false => rfl
    | true =>
        rw [served_of_begins begins] at served
        cases served
  have next : w.step action =
      { node := w.node.step action
        before := if (w.node.step action).ms.current ≠ w.node.ms.current then w.node.radio
          else w.before } := by
    simp only [Watched.step, running, Bool.false_eq_true, if_false]
  rw [next]
  clear next
  rcases service_cases { w.node with ms := ms } taken (fine.1 ms served) with
    ⟨-, stays⟩ | ⟨idx, -, inside, radio, newCurrent, newPrev⟩
  · rw [serviced, stays, msCurrent, if_neg (not_not_intro rfl)]
    refine ⟨coherent, beforeCoherent, msCurrent.trans current, msPrev.trans prev, ?_⟩
    intro onProbation
    change ms.current ≠ none
    rw [msCurrent]
    exact probation (msProbation onProbation)
  · rw [← serviced] at radio newCurrent newPrev
    rw [msCurrent, msPrev] at newPrev
    have applied : (w.node.step action).radio.currentModeIndex = some idx := by
      rw [radio]
      exact Radio.currentModeIndex_applied _ inside
    have newCoherent : (w.node.step action).radio.Coherent := by
      rw [radio]
      exact Radio.coherent_applyModeByIndex coherent _
    rw [newCurrent]
    split
    next moves =>
      rw [if_pos moves] at newPrev
      exact ⟨newCoherent, coherent, newCurrent.trans applied.symm, newPrev.trans current,
        by simp [newCurrent]⟩
    next stays =>
      rw [if_neg stays] at newPrev
      exact ⟨newCoherent, beforeCoherent, newCurrent.trans applied.symm, newPrev.trans prev,
        by simp [newCurrent]⟩

theorem Faithful.step (faithful : w.Faithful) (fine : w.Preset action) :
    (w.step action).Faithful := by
  cases begins : action.begins w.node with
  | true =>
      obtain ⟨radio, newCoherent, restarted⟩ := step_of_begins faithful.radio begins
      have next : w.step action =
          { node := Node.beginModeSwitch { w.node with radio := radio }, before := radio } := by
        simp only [Watched.step, begins, if_true, restarted]
        rfl
      rw [next]
      exact ⟨newCoherent, newCoherent, rfl, rfl, nofun⟩
  | false =>
      cases served : action.served w.node with
      | some ms => exact faithful.served served fine
      | none =>
          obtain ⟨coherent, beforeCoherent, current, prev, probation⟩ := faithful
          obtain ⟨radio, sameCurrent, samePrev, wasProbation⟩ :=
            step_of_not_begins coherent begins served
          have before : (w.step action).before = w.before := by
            simp [Watched.step, begins, sameCurrent]
          refine ⟨?_, ?_, ?_, ?_, ?_⟩
          · exact radio.symm ▸ coherent
          · exact before.symm ▸ beforeCoherent
          · exact (sameCurrent.trans current).trans (congrArg _ radio.symm)
          · rw [before]
            exact samePrev.trans prev
          · intro running
            change (w.node.step action).ms.current ≠ none
            rw [sameCurrent]
            exact probation (wasProbation running)

/-! ### Exactly when they agree -/

/-- A probation that runs out applies `prev`, when that is an index. -/
theorem step_of_expires {node : Node} (expired : action.expires node = true) :
    ∃ taken, node.step action = { node with ms :=
      { node.ms with probation := false, apply := node.ms.prev } }.serviceModeSwitch taken := by
  cases action with
  | polled now taken => exact ⟨taken, by rw [← ModeSwitch.poll_of_expires expired]; rfl⟩
  | _ => cases expired

theorem Faithful.mirrors (faithful : w.Faithful) (fine : w.Preset action) : w.Mirrors action := by
  refine ⟨fun _ => (faithful.step fine).current, fun expired => ?_⟩
  obtain ⟨taken, falls⟩ := step_of_expires expired
  cases prev : w.node.ms.prev with
  | none => exact absurd prev (fine.2 expired)
  | some idx =>
      have restored := faithful.before.restored (faithful.prev.symm.trans prev) w.node.radio
      rw [falls]
      simp [Node.serviceModeSwitch, ModeSwitch.takeApply, prev, restored]

theorem Faithful.preset (faithful : w.Faithful) (mirrors : w.Mirrors action) :
    w.Preset action := by
  refine ⟨fun ms served idx pending => ?_, fun expired none => ?_⟩
  · -- An index outside the table moves the engine and not the radio.
    by_contra outside
    have serves : (action.served w.node).isSome = true :=
      Option.isSome_iff_exists.mpr ⟨ms, served⟩
    have agree := mirrors.1 serves
    obtain ⟨taken, serviced⟩ := step_of_served served
    have moved : (w.node.step action).ms.current = some idx := by
      rw [serviced]
      simp only [Option.mem_def] at pending
      simp [Node.serviceModeSwitch, ModeSwitch.takeApply, pending]
    exact outside (Radio.lt_of_currentModeIndex (agree.symm.trans moved))
  · -- Without a fallback index the radio stays where the switch brought it.
    obtain ⟨taken, falls⟩ := step_of_expires expired
    have stays : (w.node.step action).radio = w.node.radio := by
      rw [falls]
      simp [Node.serviceModeSwitch, ModeSwitch.takeApply, none]
    have same : w.node.radio = w.before := stays.symm.trans (mirrors.2 expired)
    have probation : w.node.ms.probation = true := by
      cases action with
      | polled now taken =>
          simp only [NodeAction.expires, ModeSwitch.expires, Bool.and_eq_true] at expired
          exact expired.1
      | _ => cases expired
    refine faithful.probation probation ?_
    rw [faithful.current, same, ← faithful.prev, none]

/-- In every run, from any stored settings: the engine names the radio's mode after every
service, and every probation that runs out brings the old settings back, if and only if
no service finds an index pending that no preset has, and no probation runs out that
began on settings no preset has. -/
theorem mirrors_run_iff (built saved : PhyConfig) (actions : List NodeAction) :
    Along step Mirrors (start built saved) actions ↔
      Along step Preset (start built saved) actions :=
  along_iff (fun _ _ faithful => ⟨faithful.preset, faithful.mirrors⟩)
    (fun _ _ faithful fine => faithful.step fine) (faithful_start built saved) actions

/-- A request for index 6 is taken and applied: the engine moves, the radio does not. -/
def unknownIndex : List NodeAction := [.heard 0xE0 false, .sent 0]

/-- A board on SF8 takes a request for 'medium' and hears nothing there. -/
def customFallback : List NodeAction := [.heard 0x60 false, .sent 0, .polled 4000 4000]

theorem mirrors_fails :
    ¬Along step Mirrors (start ⟨7, 1, 5⟩ ⟨7, 1, 5⟩) unknownIndex ∧
      ¬Along step Mirrors (start ⟨7, 1, 5⟩ ⟨8, 1, 5⟩) customFallback := by
  decide

end Watched

end LoraSerial.Device
