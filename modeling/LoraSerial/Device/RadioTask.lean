import LoraSerial.Device.Radio
import LoraSerial.Library.Run

/-!
Owns who drives the radio chip and when: the main loop's transmissions, receptions and
reconfigurations, nested in each other through the idle hook, and the radio task between
them, at the boundaries of the radio mutex. Proves when `rx_armed_` tells whether the chip
receives. Does not own what is sent or received.
-/

namespace LoraSerial.Device

open Library

inductive Chip where
  | standby | rx | tx
deriving DecidableEq, Repr

/-- What the main loop waits for in a blocking call. -/
inductive Wait where
  | rx | tx
deriving DecidableEq, Repr

/-- The radio task waits for an interrupt, has decided to halt reception after too many
failed reads, or has halted it. -/
inductive TaskPhase where
  | idle | storm | backOff
deriving DecidableEq, Repr

def rxStormFails : Nat := 8

/-- `started` says that `radio_task_` is set; `waits` has the innermost wait first. -/
structure Transceiver where
  chip : Chip
  rxArmed : Bool
  phyFsk : Bool
  started : Bool
  waits : List Wait
  task : TaskPhase
  consecFail : Nat
deriving DecidableEq

namespace Transceiver

/-! ### RadioLib -/

def standby (t : Transceiver) : Transceiver :=
  { t with chip := .standby }

/-- Continuous reception. -/
def startReceive (t : Transceiver) : Transceiver :=
  { t with chip := .rx }

def startTransmit (t : Transceiver) : Transceiver :=
  { t with chip := .tx }

/-- Ends in standby. -/
def finishTransmit (t : Transceiver) : Transceiver :=
  { t with chip := .standby }

/-- `begin`: LoRa, in standby. -/
def beginLora (t : Transceiver) : Transceiver :=
  { t with chip := .standby }

/-- GFSK, in standby. -/
def beginFsk (t : Transceiver) : Transceiver :=
  { t with chip := .standby }

/-! ### Operations -/

def arm (t : Transceiver) : Transceiver :=
  { t.startReceive with rxArmed := true }

def disarm (t : Transceiver) : Transceiver :=
  { t with rxArmed := false }

/-- Both reconfigurations arm reception again once the radio task exists. -/
def rearm (t : Transceiver) : Transceiver :=
  if t.started then t.arm else t

def applyMode (t : Transceiver) : Transceiver :=
  let halted := t.standby.disarm
  (if halted.phyFsk then { halted.beginLora with phyFsk := false } else halted).rearm

def applyRadioFsk (t : Transceiver) : Transceiver :=
  { t.standby.disarm.beginFsk with phyFsk := true }.rearm

/-- An index outside the table changes nothing. -/
def applyModeByIndex (t : Transceiver) (idx : Option Nat) : Transceiver :=
  match idx.bind (rfModes[·]?) with
  | none => t
  | some mode => if mode.fsk then t.applyRadioFsk else t.applyMode

/-- The reset pulses leave the chip in standby; the LoRa path leaves reception off. -/
def reinit (t : Transceiver) : Transceiver :=
  let reset := t.disarm.standby
  if reset.phyFsk then reset.applyRadioFsk else reset.beginLora

/-- The last step of `Setup`'s radio bring-up. -/
def startTask (t : Transceiver) : Transceiver :=
  { t with started := true }.arm

/-- `Rx` up to its wait. Only the main loop writes the flag it reads. -/
def rxEnter (t : Transceiver) : Transceiver :=
  let armed := if t.rxArmed then t else t.arm
  { armed with waits := .rx :: armed.waits }

/-- `Tx` up to its wait; a failed start returns at once. -/
def txEnter (t : Transceiver) (ok : Bool) : Transceiver :=
  let halted := t.standby.disarm
  if ok then { halted.startTransmit with waits := .tx :: halted.waits } else halted

/-- The main loop holds the mutex all through `Tx`. -/
def mutexHeld (t : Transceiver) : Bool :=
  t.waits.contains .tx

/-- The task has an `RX_DONE`; `ok` says whether the read succeeds. -/
def taskRead (t : Transceiver) (ok : Bool) : Transceiver :=
  let rearmed := if t.rxArmed then t.standby.startReceive else t
  if ok then { rearmed with consecFail := 0 }
  else if rxStormFails ≤ t.consecFail + 1 then { rearmed with consecFail := 0, task := .storm }
  else { rearmed with consecFail := t.consecFail + 1 }

def taskHalt (t : Transceiver) : Transceiver :=
  { t.standby with task := .backOff }

def taskResume (t : Transceiver) : Transceiver :=
  { (if t.rxArmed then t.startReceive else t) with task := .idle }

end Transceiver

/-! ### Events -/

/-- The main loop, at its top level or from the idle hook of the innermost wait, calls `Rx`
or `Tx`, a wait ends, or a command reconfigures the radio (`AT&F`, or a mode by its index);
at its top level it recovers the radio. A frame leaves the air. The radio task runs up to
its next release of the mutex. -/
inductive RadioEvent where
  | rx
  | rxDone
  | tx (ok : Bool)
  | txDone
  | factoryReset
  | applyModeByIndex (idx : Option Nat)
  | reinit
  | onAir
  | taskRead (ok : Bool)
  | taskHalt
  | taskResume
deriving DecidableEq

namespace Transceiver

/-- The task runs when it is in that phase and gets the mutex. -/
def taskMay (t : Transceiver) (phase : TaskPhase) : Bool :=
  t.task == phase && !t.mutexHeld

def step (t : Transceiver) : RadioEvent → Transceiver
  | .rx => t.rxEnter
  | .rxDone => if t.waits.head? = some .rx then { t with waits := t.waits.tail } else t
  | .tx ok => t.txEnter ok
  | .txDone =>
      if t.waits.head? = some .tx then { t.finishTransmit with waits := t.waits.tail } else t
  | .factoryReset => t.applyMode
  | .applyModeByIndex idx => t.applyModeByIndex idx
  | .reinit => if t.waits = [] then t.reinit else t
  | .onAir => if t.chip = .tx then t.standby else t
  | .taskRead ok => if t.taskMay .idle then t.taskRead ok else t
  | .taskHalt => if t.taskMay .storm then t.taskHalt else t
  | .taskResume => if t.taskMay .backOff then t.taskResume else t

def run (t : Transceiver) (events : List RadioEvent) : Transceiver :=
  events.foldl step t

/-- After `Setup` has configured the radio, with the task started. -/
def booted : Transceiver :=
  startTask
    { chip := .standby
      rxArmed := false
      phyFsk := false
      started := false
      waits := []
      task := .idle
      consecFail := 0 }

/-! ### The flag -/

/-- While the main loop waits in `Rx` with the flag set, the chip receives, but for the
task's back-off. -/
def Listening (t : Transceiver) : Prop :=
  .rx ∈ t.waits → t.rxArmed = true → t.task ≠ .backOff → t.chip = .rx

/-- The flag is set and the chip is in standby. -/
def Deaf (t : Transceiver) : Prop :=
  t.rxArmed = true ∧ t.chip = .standby

/-- The event completes an operation that drove the chip. -/
def drives (t : Transceiver) : RadioEvent → Bool
  | .tx ok => !ok
  | .txDone => t.waits.head? = some .tx
  | .factoryReset => true
  | .applyModeByIndex idx => (idx.bind (rfModes[·]?)).isSome
  | .reinit => t.waits = []
  | .rx | .rxDone | .onAir | .taskRead _ | .taskHalt | .taskResume => false

/-- No operation that completes leaves the radio deaf; `Rx`, which leaves the chip alone,
may return in the task's back-off. -/
def LeavesTruth (t : Transceiver) (event : RadioEvent) : Prop :=
  (t.drives event = true → ¬(t.step event).Deaf) ∧
    (event = .rxDone → t.waits.head? = some .rx → t.task ≠ .backOff → ¬(t.step event).Deaf)

/-- The flag is clear when a wait in `Tx` ends. -/
def Released (t : Transceiver) (event : RadioEvent) : Prop :=
  event = .txDone → t.waits.head? = some .tx → t.rxArmed = false

/-- A flag that is set is right, but for the task's back-off. -/
structure Truthful (t : Transceiver) : Prop where
  armed : t.rxArmed = true → t.chip = .rx ∨ t.task = .backOff
  started : t.started = true

variable {t : Transceiver}

theorem truthful_booted : booted.Truthful where
  armed := fun _ => Or.inl rfl
  started := rfl

/-- A radio that receives may say so. -/
theorem Truthful.of_receiving (receives : t.chip = .rx) (started : t.started = true) :
    t.Truthful where
  armed := fun _ => Or.inl receives
  started := started

/-- A radio with the flag clear promises nothing. -/
theorem Truthful.of_clear (clear : t.rxArmed = false) (started : t.started = true) :
    t.Truthful where
  armed := fun armed => by
    rw [clear] at armed
    cases armed
  started := started

theorem rearm_started (started : t.started = true) : t.rearm = t.arm :=
  if_pos started

/-- Both branches of `ApplyMode` end armed. -/
theorem applyMode_eq (started : t.started = true) :
    t.applyMode = { t with chip := .rx, rxArmed := true, phyFsk := false } := by
  unfold applyMode
  dsimp only
  split
  next => exact rearm_started started
  next lora =>
    have unchanged : t.phyFsk = false := Bool.eq_false_iff.mpr lora
    calc t.standby.disarm.rearm = t.standby.disarm.arm := rearm_started started
      _ = { t with chip := .rx, rxArmed := true, phyFsk := t.phyFsk } := rfl
      _ = { t with chip := .rx, rxArmed := true, phyFsk := false } := by rw [unchanged]

theorem applyRadioFsk_eq (started : t.started = true) :
    t.applyRadioFsk = { t with chip := .rx, rxArmed := true, phyFsk := true } :=
  rearm_started started

/-- What `ApplyModeByIndex` leaves agrees with the radio's own model of it. -/
theorem phyFsk_applyModeByIndex (started : t.started = true) {radio : Radio}
    (same : t.phyFsk = radio.phyFsk) (idx : Option Nat) :
    (t.applyModeByIndex idx).phyFsk = (radio.applyModeByIndex idx).2.phyFsk := by
  unfold applyModeByIndex Radio.applyModeByIndex
  cases idx.bind (rfModes[·]?) with
  | none => exact same
  | some mode =>
      dsimp only
      split
      next =>
        rw [applyRadioFsk_eq started]
        rfl
      next =>
        rw [applyMode_eq started]
        rfl

namespace Truthful

theorem applyMode (truthful : t.Truthful) : t.applyMode.Truthful := by
  rw [applyMode_eq truthful.started]
  exact of_receiving rfl truthful.started

theorem applyRadioFsk (truthful : t.Truthful) : t.applyRadioFsk.Truthful := by
  rw [applyRadioFsk_eq truthful.started]
  exact of_receiving rfl truthful.started

theorem applyModeByIndex (truthful : t.Truthful) (idx : Option Nat) :
    (t.applyModeByIndex idx).Truthful := by
  unfold Transceiver.applyModeByIndex
  split
  next => exact truthful
  next =>
    split
    next => exact truthful.applyRadioFsk
    next => exact truthful.applyMode

theorem reinit (truthful : t.Truthful) : t.reinit.Truthful := by
  have reset : t.disarm.standby.Truthful := of_clear rfl truthful.started
  unfold Transceiver.reinit
  dsimp only
  split
  next => exact reset.applyRadioFsk
  next => exact of_clear rfl truthful.started

theorem rxEnter (truthful : t.Truthful) : t.rxEnter.Truthful := by
  unfold Transceiver.rxEnter
  split
  next => exact ⟨truthful.armed, truthful.started⟩
  next => exact ⟨fun _ => Or.inl rfl, truthful.started⟩

theorem txEnter (truthful : t.Truthful) (ok : Bool) : (t.txEnter ok).Truthful := by
  cases ok with
  | true => exact of_clear rfl truthful.started
  | false => exact of_clear rfl truthful.started

/-- After a reception the chip receives again if it is meant to. -/
theorem taskRead (truthful : t.Truthful) (ok : Bool) : (t.taskRead ok).Truthful := by
  have rearmed : (if t.rxArmed then t.standby.startReceive else t).rxArmed = true →
      (if t.rxArmed then t.standby.startReceive else t).chip = .rx := by
    cases armed : t.rxArmed with
    | true => exact fun _ => rfl
    | false => exact fun set => by simp [armed] at set
  have started : (if t.rxArmed then t.standby.startReceive else t).started = true := by
    split
    next => exact truthful.started
    next => exact truthful.started
  unfold Transceiver.taskRead
  dsimp only
  split
  next => exact ⟨fun set => Or.inl (rearmed set), started⟩
  next =>
    split
    next => exact ⟨fun set => Or.inl (rearmed set), started⟩
    next => exact ⟨fun set => Or.inl (rearmed set), started⟩

theorem taskHalt (truthful : t.Truthful) : t.taskHalt.Truthful where
  armed := fun _ => Or.inr rfl
  started := truthful.started

theorem taskResume (truthful : t.Truthful) : t.taskResume.Truthful := by
  unfold Transceiver.taskResume
  cases armed : t.rxArmed with
  | true => exact of_receiving rfl truthful.started
  | false => exact of_clear armed truthful.started

/-- Every event keeps the flag true, the end of a transmission if it finds it clear. -/
theorem step (truthful : t.Truthful) (event : RadioEvent) (released : t.Released event) :
    (t.step event).Truthful := by
  cases event with
  | rx => exact truthful.rxEnter
  | rxDone =>
      dsimp only [Transceiver.step]
      split
      next => exact ⟨truthful.armed, truthful.started⟩
      next => exact truthful
  | tx ok => exact truthful.txEnter ok
  | txDone =>
      dsimp only [Transceiver.step]
      split
      next waiting => exact of_clear (released rfl waiting) truthful.started
      next => exact truthful
  | factoryReset => exact truthful.applyMode
  | applyModeByIndex idx => exact truthful.applyModeByIndex idx
  | reinit =>
      dsimp only [Transceiver.step]
      split
      next => exact truthful.reinit
      next => exact truthful
  | onAir =>
      dsimp only [Transceiver.step]
      split
      next sending =>
        refine ⟨fun set => Or.inr ?_, truthful.started⟩
        rcases truthful.armed set with receives | backOff
        · rw [sending] at receives
          cases receives
        · exact backOff
      next => exact truthful
  | taskRead ok =>
      dsimp only [Transceiver.step]
      split
      next => exact truthful.taskRead ok
      next => exact truthful
  | taskHalt =>
      dsimp only [Transceiver.step]
      split
      next => exact truthful.taskHalt
      next => exact truthful
  | taskResume =>
      dsimp only [Transceiver.step]
      split
      next => exact truthful.taskResume
      next => exact truthful

theorem listening (truthful : t.Truthful) : t.Listening := fun _ set quiet =>
  (truthful.armed set).resolve_right quiet

theorem not_deaf (truthful : t.Truthful) (quiet : t.task ≠ .backOff) : ¬t.Deaf := by
  rintro ⟨set, halted⟩
  have receives := (truthful.armed set).resolve_right quiet
  rw [halted] at receives
  cases receives

end Truthful

theorem not_deaf_of_clear (clear : t.rxArmed = false) : ¬t.Deaf := by
  rintro ⟨set, -⟩
  rw [clear] at set
  cases set

theorem not_deaf_of_receiving (receives : t.chip = .rx) : ¬t.Deaf := by
  rintro ⟨-, halted⟩
  rw [receives] at halted
  cases halted

theorem not_deaf_applyMode (started : t.started = true) : ¬t.applyMode.Deaf := by
  rw [applyMode_eq started]
  exact not_deaf_of_receiving rfl

theorem not_deaf_applyRadioFsk (started : t.started = true) : ¬t.applyRadioFsk.Deaf := by
  rw [applyRadioFsk_eq started]
  exact not_deaf_of_receiving rfl

theorem not_deaf_reinit (started : t.started = true) : ¬t.reinit.Deaf := by
  unfold reinit
  dsimp only
  split
  next => exact not_deaf_applyRadioFsk started
  next => exact not_deaf_of_clear rfl

/-- Whatever drove the chip left it receiving, or the flag clear. -/
theorem Truthful.leavesTruth (truthful : t.Truthful) (event : RadioEvent)
    (released : t.Released event) : t.LeavesTruth event := by
  constructor
  · intro drives
    cases event with
    | tx ok =>
        cases ok with
        | true => cases drives
        | false => exact not_deaf_of_clear rfl
    | txDone =>
        have waiting : t.waits.head? = some .tx := of_decide_eq_true drives
        rw [Transceiver.step, if_pos waiting]
        exact not_deaf_of_clear (released rfl waiting)
    | factoryReset => exact not_deaf_applyMode truthful.started
    | applyModeByIndex idx =>
        obtain ⟨mode, row⟩ := Option.isSome_iff_exists.mp drives
        rw [Transceiver.step, Transceiver.applyModeByIndex, row]
        dsimp only
        split
        next => exact not_deaf_applyRadioFsk truthful.started
        next => exact not_deaf_applyMode truthful.started
    | reinit =>
        have top : t.waits = [] := of_decide_eq_true drives
        rw [Transceiver.step, if_pos top]
        exact not_deaf_reinit truthful.started
    | rx | rxDone | onAir | taskRead ok | taskHalt | taskResume => cases drives
  · rintro rfl waiting quiet
    rw [Transceiver.step, if_pos waiting]
    exact truthful.not_deaf quiet

/-- A transmission that ends with the flag set leaves the radio deaf. -/
theorem LeavesTruth.released {event : RadioEvent} (leaves : t.LeavesTruth event) :
    t.Released event := by
  rintro rfl waiting
  have clear := leaves.1 (decide_eq_true waiting)
  rw [step, if_pos waiting] at clear
  exact Bool.eq_false_iff.mpr fun set => clear ⟨set, rfl⟩

/-- The flag tells the truth in every state a run reaches, and after every operation it
completes, exactly when it is clear at the end of every wait in `Tx`. -/
theorem truthful_iff (events : List RadioEvent) :
    ((∀ before, before <+: events → (booted.run before).Listening) ∧
        Run.Along step LeavesTruth booted events) ↔
      Run.Along step Released booted events := by
  have keeps : ∀ t event, Truthful t → Released t event → (t.step event).Truthful :=
    fun t event truthful released => truthful.step event released
  constructor
  · rintro ⟨-, leaves⟩
    exact leaves.mono fun t event here => here.released
  · intro released
    constructor
    · rintro before ⟨after, rfl⟩
      have first := (Run.along_append.mp released).1
      exact (first.invariant_foldl keeps truthful_booted).listening
    · exact released.imp (fun t event truthful here => truthful.leavesTruth event here) keeps
        truthful_booted

/-- `AT+FMODE=ludicrous` from the idle hook of a transmission, then the end of the
transmission and the reception after it. -/
def fmodeDuringTx : List RadioEvent :=
  [.tx true, .applyModeByIndex (some 5), .txDone, .rx]

/-- The main loop waits for frames that a chip in standby cannot receive. -/
theorem deaf_after_fmode :
    (booted.run fmodeDuringTx).waits = [.rx] ∧ (booted.run fmodeDuringTx).Deaf ∧
      (booted.run fmodeDuringTx).task = .idle ∧ ¬(booted.run fmodeDuringTx).Listening := by
  have deaf : (booted.run fmodeDuringTx).Deaf := ⟨by decide, by decide⟩
  refine ⟨by decide, deaf, by decide, fun listening => ?_⟩
  have receives := listening (by decide) deaf.1 (by decide)
  rw [deaf.2] at receives
  cases receives

end Transceiver

end LoraSerial.Device
