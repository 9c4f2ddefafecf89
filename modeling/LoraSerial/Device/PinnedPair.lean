import LoraSerial.Device.ModeControl
import LoraSerial.ModeSwitch.Agreement

/-!
Owns two boards with pinned LoRa modes: their turn loops, receive rings, saved modes,
AT+MODE on the initiator, AT&W and reboots in any order. With FEAT_ADR off and no GFSK
`MaybeRendezvous` returns at once, so it is no step here. Frames of other senders are
not part of it.
-/

namespace LoraSerial.Device

open Library.Run
open ModeSwitch (InitiatorTurn ResponderTurn)

/-! ### One board -/

/-- The control nibble of a received frame; `fresh` until the next mode change. -/
structure Heard where
  nib : UInt8
  fresh : Bool
deriving DecidableEq, Repr

structure Station where
  node : Node
  saved : PhyConfig
  ring : List Heard
deriving DecidableEq, Repr

namespace Station

def setup (built saved : PhyConfig) : Station where
  node := .setup built saved
  saved := saved
  ring := []

def reboot (station : Station) (built : PhyConfig) : Station :=
  setup built station.saved

/-- `AT&W` -/
def save (station : Station) : Station :=
  { station with saved := station.node.radio.cfg }

def push (station : Station) (nib : UInt8) : Station :=
  { station with ring := station.ring ++ [{ nib := nib, fresh := true }] }

/-- A mode change keeps the ring. -/
def service (station : Station) (taken : UInt32) : Station :=
  { station with
    node := station.node.serviceModeSwitch taken
    ring :=
      if station.node.ms.apply.isSome then station.ring.map fun heard => { heard with fresh := false }
      else station.ring }

def poll (station : Station) (now taken : UInt32) : Station :=
  { station with node := { station.node with ms := station.node.ms.poll now } }.service taken

/-- `count` frames are read, and the engine gets the nibble of the last. -/
def receive (station : Station) (count : Nat) (isInitiator : Bool) : Station :=
  match (station.ring.take count).getLast? with
  | none => station
  | some heard =>
      { station with
        node := { station.node with ms := station.node.ms.afterRecv heard.nib isInitiator }
        ring := station.ring.drop count }

def sent (station : Station) (taken : UInt32) : Station :=
  { station with node := { station.node with ms := station.node.ms.afterSend } }.service taken

def request (station : Station) (idx : Nat) : Station :=
  { station with node := station.node.pinMode true idx }

end Station

/-! ### What a board keeps -/

/-- Every index it holds or has received is a LoRa preset, and engine and radio agree. -/
structure Station.Pinned (station : Station) : Prop where
  within : station.node.ms.Within (· < loraModeCount)
  radio : station.node.radio.Coherent
  current : station.node.ms.current = station.node.radio.currentModeIndex
  saved : ∃ idx, (Radio.setup station.saved station.saved).currentModeIndex = some idx ∧
    idx < loraModeCount
  ring : ∀ heard ∈ station.ring, ∀ idx ∈ ctrlModeIdx heard.nib, idx < loraModeCount

/-- A switch is under way, or a probation that no frame received on the new mode will
end. -/
def Station.pending (station : Station) : Bool :=
  station.node.ms.target.isSome || station.node.ms.armed.isSome || station.node.ms.apply.isSome ||
    (station.node.ms.probation && station.ring.all fun heard => !heard.fresh)

namespace Station

variable {station : Station}

theorem busy_of_pending (pending : station.pending = true) : station.node.ms.busy = true := by
  simp only [Station.pending, Bool.or_eq_true, Bool.and_eq_true] at pending
  simp only [ModeSwitch.busy, Bool.or_eq_true]
  exact pending.imp_right And.left

theorem pinned_setup (built : PhyConfig) {saved : PhyConfig} {idx : Nat}
    (preset : (Radio.setup saved saved).currentModeIndex = some idx) (lora : idx < loraModeCount) :
    (setup built saved).Pinned where
  within := by
    have current : (Radio.setup built saved).currentModeIndex = some idx := preset
    simp only [setup, Node.setup, current]
    exact ModeSwitch.within_begin _ lora
  radio := Radio.coherent_setup built saved
  current := rfl
  saved := ⟨idx, preset, lora⟩
  ring := nofun

theorem Pinned.reboot (pinned : station.Pinned) (built : PhyConfig) :
    (station.reboot built).Pinned := by
  obtain ⟨idx, preset, lora⟩ := pinned.saved
  exact pinned_setup built preset lora

theorem Pinned.save (pinned : station.Pinned) : station.save.Pinned := by
  obtain ⟨idx, current, lora⟩ := pinned.within.current
  have reported := pinned.current.symm.trans current
  refine { pinned with saved := ⟨idx, ?_, lora⟩ }
  change (Radio.setup station.node.radio.cfg station.node.radio.cfg).currentModeIndex = _
  rw [pinned.radio.setup_cfg reported lora]
  exact reported

theorem Pinned.push (pinned : station.Pinned) {nib : UInt8}
    (lora : ∀ idx ∈ ctrlModeIdx nib, idx < loraModeCount) : (station.push nib).Pinned := by
  refine { pinned with ring := ?_ }
  intro heard member
  rcases List.mem_append.mp member with old | new
  · exact pinned.ring heard old
  · rw [List.mem_singleton] at new
    rw [new]
    exact lora

theorem Pinned.request (pinned : station.Pinned) {idx : Nat} (lora : idx < loraModeCount) :
    (station.request idx).Pinned := by
  unfold Station.request Node.pinMode
  simp only [if_true]
  split
  · exact pinned
  · exact { pinned with
      within := pinned.within.request lora
      current := (ModeSwitch.request_current _ _).trans pinned.current }

theorem Pinned.receive (pinned : station.Pinned) (count : Nat) (isInitiator : Bool) :
    (station.receive count isInitiator).Pinned := by
  unfold Station.receive
  split
  · exact pinned
  next heard last =>
    have member := List.mem_of_mem_take (List.mem_of_getLast? last)
    exact { pinned with
      within := pinned.within.afterRecv isInitiator (pinned.ring heard member)
      current := (ModeSwitch.afterRecv_current _ _ _).trans pinned.current
      ring := fun heard later => pinned.ring heard (List.mem_of_mem_drop later) }

theorem Pinned.service (pinned : station.Pinned) (taken : UInt32) :
    (station.service taken).Pinned := by
  have ring : ∀ heard ∈ (station.service taken).ring, ∀ idx ∈ ctrlModeIdx heard.nib,
      idx < loraModeCount := by
    intro heard member
    simp only [Station.service] at member
    split at member
    · obtain ⟨old, was, rfl⟩ := List.mem_map.mp member
      exact pinned.ring old was
    · exact pinned.ring heard member
  cases took : station.node.ms.takeApply taken with
  | none =>
      have stays : (station.service taken).node = station.node := by
        simp [Station.service, Node.serviceModeSwitch, took]
      exact ⟨stays ▸ pinned.within, stays ▸ pinned.radio, stays ▸ pinned.current, pinned.saved, ring⟩
  | some result =>
      obtain ⟨idx, ms⟩ := result
      obtain ⟨lora, within⟩ := pinned.within.takeApply took
      have moved : (station.service taken).node =
          { radio := (station.node.radio.applyModeByIndex (some idx)).2, ms := ms } := by
        simp [Station.service, Node.serviceModeSwitch, took]
      have inside : idx < rfModeCount := Nat.lt_of_lt_of_le lora (by decide)
      have current : ms.current = some idx := by
        unfold ModeSwitch.takeApply at took
        split at took <;> cases took
        rfl
      refine ⟨moved ▸ within, ?_, ?_, pinned.saved, ring⟩
      · rw [moved]
        exact Radio.coherent_applyModeByIndex pinned.radio _
      · rw [moved]
        exact current.trans (Radio.currentModeIndex_applied _ inside).symm

/-- The engine moves on within the presets, on the same mode. -/
theorem Pinned.engine (pinned : station.Pinned) {ms : ModeSwitch}
    (within : ms.Within (· < loraModeCount)) (current : ms.current = station.node.ms.current) :
    ({ station with node := { station.node with ms := ms } } : Station).Pinned :=
  { pinned with within := within, current := current.trans pinned.current }

theorem Pinned.poll (pinned : station.Pinned) (now taken : UInt32) :
    (station.poll now taken).Pinned :=
  (pinned.engine (pinned.within.poll now) (ModeSwitch.poll_current _ _)).service taken

theorem Pinned.sent (pinned : station.Pinned) (taken : UInt32) : (station.sent taken).Pinned :=
  (pinned.engine pinned.within.afterSend (ModeSwitch.afterSend_current _)).service taken

theorem Pinned.txCtrl (pinned : station.Pinned) :
    ∀ idx ∈ ctrlModeIdx station.node.ms.txCtrl, idx < loraModeCount :=
  pinned.within.txCtrl fun _ lora => Nat.lt_of_lt_of_le lora (by decide)

theorem receive_radio (station : Station) (count : Nat) (isInitiator : Bool) :
    (station.receive count isInitiator).node.radio = station.node.radio := by
  unfold Station.receive
  split <;> rfl

/-! ### What ends a pending switch -/

/-- Applying a mode starts a probation in which nothing has been received. -/
theorem service_cases (station : Station) (taken : UInt32) :
    (station.node.ms.apply = none ∧ station.service taken = station) ∨
      (station.service taken).pending = true := by
  cases apply : station.node.ms.apply with
  | none =>
      refine Or.inl ⟨rfl, ?_⟩
      simp [Station.service, Node.serviceModeSwitch, ModeSwitch.takeApply, apply]
  | some idx =>
      refine Or.inr ?_
      simp [Station.service, Node.serviceModeSwitch, ModeSwitch.takeApply, apply, Station.pending]

theorem Pinned.poll_cases (pinned : station.Pinned) (now taken : UInt32) :
    station.poll now taken = station ∨ (station.poll now taken).pending = true := by
  cases expired : station.node.ms.expires now with
  | false =>
      have same : ({ station with node := { station.node with ms := station.node.ms.poll now } } :
          Station) = station := by
        rw [ModeSwitch.poll_of_not_expires expired]
      unfold Station.poll
      rw [same]
      exact (service_cases station taken).imp_left And.right
  | true =>
      obtain ⟨mode, prev, -⟩ := pinned.within.prev
      have polled := ModeSwitch.poll_of_expires expired
      refine Or.inr ((service_cases _ taken).resolve_left ?_)
      rintro ⟨none, -⟩
      rw [polled] at none
      cases prev.symm.trans none

theorem sent_cases (station : Station) (taken : UInt32) :
    station.sent taken = station ∨ (station.sent taken).pending = true := by
  cases armed : station.node.ms.armed with
  | none =>
      have same : ({ station with node := { station.node with ms := station.node.ms.afterSend } } :
          Station) = station := by
        simp [ModeSwitch.afterSend, armed]
      unfold Station.sent
      rw [same]
      exact (service_cases station taken).imp_left And.right
  | some idx =>
      refine Or.inr ((service_cases _ taken).resolve_left ?_)
      rintro ⟨none, -⟩
      simp [ModeSwitch.afterSend, armed] at none

/-- A request either finds the board on that mode, or leaves a switch pending. -/
theorem request_cases (station : Station) (idx : Nat) :
    station.request idx = station ∨ (station.request idx).pending = true := by
  unfold Station.request Node.pinMode ModeSwitch.request
  simp only [if_true]
  split
  · exact Or.inl rfl
  · split
    · exact Or.inl rfl
    · exact Or.inr (by simp [Station.pending])

/-- Reading a frame ends nothing but a probation. -/
theorem pending_receive (pending : station.pending = true) {count : Nat} (isInitiator : Bool)
    (current : station.ring.take count ≠ [] → station.node.ms.probation = true →
      ∃ heard ∈ station.ring, heard.fresh = true) :
    (station.receive count isInitiator).pending = true := by
  unfold Station.receive
  split
  · exact pending
  next heard last =>
    have some_read : station.ring.take count ≠ [] := by
      intro none
      rw [none] at last
      cases last
    have outstanding : (station.node.ms.target.isSome || station.node.ms.armed.isSome ||
        station.node.ms.apply.isSome) = true := by
      simp only [Station.pending, Bool.or_eq_true (_ || _ || _)] at pending
      rcases pending with outstanding | unheard
      · exact outstanding
      · rw [Bool.and_eq_true] at unheard
        obtain ⟨late, member, fresh⟩ := current some_read unheard.1
        have stale := List.all_eq_true.mp unheard.2 late member
        rw [fresh] at stale
        cases stale
    have kept := ModeSwitch.outstanding_afterRecv outstanding heard.nib isInitiator
    simp only [Station.pending, kept, Bool.true_or]

/-- A board that is not busy and has nothing to read stays as it is. -/
theorem idle_stays (free : station.node.ms.busy = false)
    (empty : station.ring = []) (now taken : UInt32) (count : Nat) (isInitiator : Bool) :
    station.service taken = station ∧ station.poll now taken = station ∧
      station.sent taken = station ∧ station.receive count isInitiator = station := by
  simp only [ModeSwitch.busy, Bool.or_eq_false_iff, Option.isSome_eq_false_iff,
    Option.isNone_iff_eq_none] at free
  obtain ⟨⟨⟨-, armed⟩, apply⟩, probation⟩ := free
  have service : station.service taken = station := by
    simp [Station.service, Node.serviceModeSwitch, ModeSwitch.takeApply, apply]
  refine ⟨service, ?_, ?_, ?_⟩
  · simp [Station.poll, ModeSwitch.poll, probation, service]
  · simp [Station.sent, ModeSwitch.afterSend, armed, service]
  · simp [Station.receive, empty]

end Station

/-! ### Two boards -/

structure PinnedPair where
  initiator : Station
  responder : Station
  initiatorTurn : InitiatorTurn
  responderTurn : ResponderTurn
deriving DecidableEq, Repr

inductive PinnedAction where
  | request (idx : Fin loraModeCount)
  | save (isInitiator : Bool)
  | reboot (isInitiator : Bool) (built : PhyConfig)
  | initiatorPoll (now taken : UInt32)
  | initiatorSend (lost : Bool)
  | initiatorReceive (count : Nat)
  | initiatorService (taken : UInt32)
  | responderPoll (now taken : UInt32)
  | responderReceive (count : Nat)
  | responderReply (lost : Bool)
  | responderSent (taken : UInt32)

/-- A step of the turn loops, without a command or a reboot. -/
def PinnedAction.isTurn : PinnedAction → Bool
  | .request _ | .save _ | .reboot _ _ => false
  | _ => true

namespace PinnedPair

/-- Both boards boot with the same LoRa preset saved. -/
def start (built : PhyConfig) (idx : Fin loraModeCount) : PinnedPair where
  initiator := .setup built (Radio.presetConfig idx)
  responder := .setup built (Radio.presetConfig idx)
  initiatorTurn := .idle
  responderTurn := .idle

/-- A frame passes between radios that run the same. -/
def carries (pair : PinnedPair) (lost : Bool) : Bool :=
  !lost && pair.initiator.node.radio.phy == pair.responder.node.radio.phy

/-- One step; a step out of turn does nothing. -/
def step (pair : PinnedPair) : PinnedAction → PinnedPair
  | .request idx => { pair with initiator := pair.initiator.request idx }
  | .save true => { pair with initiator := pair.initiator.save }
  | .save false => { pair with responder := pair.responder.save }
  | .reboot true built =>
      { pair with initiator := pair.initiator.reboot built, initiatorTurn := .idle }
  | .reboot false built =>
      { pair with responder := pair.responder.reboot built, responderTurn := .idle }
  | .initiatorPoll now taken =>
      if pair.initiatorTurn = .idle then { pair with initiator := pair.initiator.poll now taken }
      else pair
  | .initiatorSend lost =>
      if pair.initiatorTurn = .idle then
        { pair with
          responder :=
            if pair.carries lost then pair.responder.push pair.initiator.node.ms.txCtrl
            else pair.responder
          initiatorTurn := .waiting }
      else pair
  | .initiatorReceive count =>
      if pair.initiatorTurn = .waiting then
        { pair with
          initiator := pair.initiator.receive count true
          initiatorTurn := .serving }
      else pair
  | .initiatorService taken =>
      if pair.initiatorTurn = .serving then
        { pair with initiator := pair.initiator.service taken, initiatorTurn := .idle }
      else pair
  | .responderPoll now taken =>
      if pair.responderTurn = .idle then { pair with responder := pair.responder.poll now taken }
      else pair
  | .responderReceive count =>
      if pair.responderTurn = .idle ∧ pair.responder.ring.take count ≠ [] then
        { pair with
          responder := pair.responder.receive count false
          responderTurn := .heard }
      else pair
  | .responderReply lost =>
      if pair.responderTurn = .heard then
        { pair with
          initiator :=
            if pair.carries lost then pair.initiator.push pair.responder.node.ms.txCtrl
            else pair.initiator
          responderTurn := .sent }
      else pair
  | .responderSent taken =>
      if pair.responderTurn = .sent then
        { pair with responder := pair.responder.sent taken, responderTurn := .idle }
      else pair

/-! ### Agreement -/

/-- A board reboots only onto the mode of the other board, unless that board still has a
switch pending; and a board on probation reads no frame while everything in its ring is
from before the mode change. -/
def Meets (pair : PinnedPair) : PinnedAction → Prop
  | .reboot true built =>
      pair.responder.pending ∨
        pair.responder.node.radio = Radio.setup built pair.initiator.saved
  | .reboot false built =>
      pair.initiator.pending ∨
        pair.initiator.node.radio = Radio.setup built pair.responder.saved
  | .initiatorReceive count =>
      pair.initiator.ring.take count ≠ [] → pair.initiator.node.ms.probation →
        ∃ heard ∈ pair.initiator.ring, heard.fresh
  | .responderReceive count =>
      pair.responder.ring.take count ≠ [] → pair.responder.node.ms.probation →
        ∃ heard ∈ pair.responder.ring, heard.fresh
  | _ => True

instance : ∀ (pair : PinnedPair) (action : PinnedAction), Decidable (pair.Meets action)
  | _, .reboot true _ | _, .reboot false _ => inferInstanceAs (Decidable (_ ∨ _))
  | _, .initiatorReceive _ | _, .responderReceive _ => inferInstanceAs (Decidable (_ → _ → _))
  | _, .request _ | _, .save _ | _, .initiatorPoll _ _ | _, .initiatorSend _
  | _, .initiatorService _ | _, .responderPoll _ _ | _, .responderReply _
  | _, .responderSent _ => .isTrue trivial

/-- A switch is pending at one end, or both radios run the same. -/
structure Joined (pair : PinnedPair) : Prop where
  initiator : pair.initiator.Pinned
  responder : pair.responder.Pinned
  joined : pair.initiator.pending ∨ pair.responder.pending ∨
    pair.initiator.node.radio = pair.responder.node.radio

variable {pair : PinnedPair}

theorem joined_start (built : PhyConfig) (idx : Fin loraModeCount) : (start built idx).Joined where
  initiator := Station.pinned_setup built (Radio.currentModeIndex_setup _ idx) idx.isLt
  responder := Station.pinned_setup built (Radio.currentModeIndex_setup _ idx) idx.isLt
  joined := Or.inr (Or.inr rfl)

/-- The initiator moves on: nothing changes, or a switch is pending. -/
theorem Joined.initiator_step (sound : pair.Joined) {station : Station} (pinned : station.Pinned)
    (moves : station = pair.initiator ∨ station.pending = true) (turn : InitiatorTurn) :
    ({ pair with initiator := station, initiatorTurn := turn } : PinnedPair).Joined := by
  refine ⟨pinned, sound.responder, ?_⟩
  rcases moves with rfl | pending
  · exact sound.joined
  · exact Or.inl pending

theorem Joined.responder_step (sound : pair.Joined) {station : Station} (pinned : station.Pinned)
    (moves : station = pair.responder ∨ station.pending = true) (turn : ResponderTurn) :
    ({ pair with responder := station, responderTurn := turn } : PinnedPair).Joined := by
  refine ⟨sound.initiator, pinned, ?_⟩
  rcases moves with rfl | pending
  · exact sound.joined
  · exact Or.inr (Or.inl pending)

/-- Radios between which a frame passes run the same. -/
theorem Joined.radio_eq (sound : pair.Joined) {lost : Bool} (carries : pair.carries lost = true) :
    pair.initiator.node.radio = pair.responder.node.radio := by
  simp only [PinnedPair.carries, Bool.and_eq_true, beq_iff_eq] at carries
  exact sound.initiator.radio.ext sound.responder.radio carries.2

theorem Joined.initiatorSend (sound : pair.Joined) (lost : Bool) :
    (pair.step (.initiatorSend lost)).Joined := by
  simp only [step]
  split
  · cases carried : pair.carries lost with
    | false => exact ⟨sound.initiator, sound.responder, sound.joined⟩
    | true =>
        exact ⟨sound.initiator, sound.responder.push sound.initiator.txCtrl,
          Or.inr (Or.inr (sound.radio_eq carried))⟩
  · exact sound

theorem Joined.responderReply (sound : pair.Joined) (lost : Bool) :
    (pair.step (.responderReply lost)).Joined := by
  simp only [step]
  split
  · cases carried : pair.carries lost with
    | false => exact ⟨sound.initiator, sound.responder, sound.joined⟩
    | true =>
        exact ⟨sound.initiator.push sound.responder.txCtrl, sound.responder,
          Or.inr (Or.inr (sound.radio_eq carried))⟩
  · exact sound

theorem Joined.initiatorReceive (sound : pair.Joined) {count : Nat}
    (meets : pair.Meets (.initiatorReceive count)) :
    (pair.step (.initiatorReceive count)).Joined := by
  simp only [step]
  split
  · refine ⟨sound.initiator.receive count true, sound.responder, ?_⟩
    rcases sound.joined with pending | pending | same
    · exact Or.inl (Station.pending_receive pending true meets)
    · exact Or.inr (Or.inl pending)
    · exact Or.inr (Or.inr ((Station.receive_radio _ count true).trans same))
  · exact sound

theorem Joined.responderReceive (sound : pair.Joined) {count : Nat}
    (meets : pair.Meets (.responderReceive count)) :
    (pair.step (.responderReceive count)).Joined := by
  simp only [step]
  split
  · refine ⟨sound.initiator, sound.responder.receive count false, ?_⟩
    rcases sound.joined with pending | pending | same
    · exact Or.inl pending
    · exact Or.inr (Or.inl (Station.pending_receive pending false meets))
    · exact Or.inr (Or.inr (same.trans (Station.receive_radio _ count false).symm))
  · exact sound

theorem Joined.step (sound : pair.Joined) (action : PinnedAction) (meets : pair.Meets action) :
    (pair.step action).Joined := by
  cases action with
  | request idx =>
      exact sound.initiator_step (sound.initiator.request idx.isLt) (Station.request_cases _ _) _
  | save isInitiator =>
      cases isInitiator with
      | true => exact ⟨sound.initiator.save, sound.responder, sound.joined⟩
      | false => exact ⟨sound.initiator, sound.responder.save, sound.joined⟩
  | reboot isInitiator built =>
      cases isInitiator with
      | true =>
          exact ⟨sound.initiator.reboot built, sound.responder,
            Or.inr (meets.imp_right Eq.symm)⟩
      | false =>
          exact ⟨sound.initiator, sound.responder.reboot built,
            meets.imp_right Or.inr⟩
  | initiatorPoll now taken =>
      simp only [PinnedPair.step]
      split
      · exact sound.initiator_step (sound.initiator.poll now taken)
          (sound.initiator.poll_cases now taken) _
      · exact sound
  | initiatorSend lost => exact sound.initiatorSend lost
  | initiatorReceive count => exact sound.initiatorReceive meets
  | initiatorService taken =>
      simp only [PinnedPair.step]
      split
      · exact sound.initiator_step (sound.initiator.service taken)
          ((Station.service_cases _ taken).imp_left And.right) _
      · exact sound
  | responderPoll now taken =>
      simp only [PinnedPair.step]
      split
      · exact sound.responder_step (sound.responder.poll now taken)
          (sound.responder.poll_cases now taken) _
      · exact sound
  | responderReceive count => exact sound.responderReceive meets
  | responderReply lost => exact sound.responderReply lost
  | responderSent taken =>
      simp only [PinnedPair.step]
      split
      · exact sound.responder_step (sound.responder.sent taken) (Station.sent_cases _ taken) _
      · exact sound

/-- In every run whose reboots and receptions meet the condition: when no switch is
pending or on probation at either end, both boards run the same mode. -/
theorem same_mode_run (built : PhyConfig) (idx : Fin loraModeCount) (actions : List PinnedAction)
    (meets : Along step Meets (start built idx) actions) :
    let pair := actions.foldl step (start built idx)
    pair.initiator.node.ms.busy = false → pair.responder.node.ms.busy = false →
      pair.initiator.node.radio = pair.responder.node.radio := by
  intro pair initiatorFree responderFree
  have sound : pair.Joined := meets.invariant_foldl (fun _ action sound ok => sound.step action ok)
    (joined_start built idx)
  have settled : ∀ {station : Station}, station.node.ms.busy = false → station.pending ≠ true := by
    intro station free pending
    rw [Station.busy_of_pending pending] at free
    cases free
  exact (sound.joined.resolve_left (settled initiatorFree)).resolve_left (settled responderFree)

/-- One exchange without loss, and what both ends do around it. -/
def exchange : List PinnedAction :=
  [.initiatorPoll 0 0, .initiatorSend false, .responderPoll 0 0, .responderReceive 1,
    .responderReply false, .responderSent 0, .initiatorReceive 1, .initiatorService 0]

/-- AT+MODE=fast, the switch, and the exchange that confirms it. -/
def switchToFast : List PinnedAction :=
  .request 1 :: exchange ++ exchange

/-- The responder saves the mode before it reboots. -/
def savedReboot : List PinnedAction :=
  switchToFast ++ [.save false, .reboot false ⟨7, 1, 5⟩]

theorem same_mode_run_saved :
    let pair := savedReboot.foldl step (start ⟨7, 1, 5⟩ 2)
    pair.initiator.node.radio = pair.responder.node.radio :=
  same_mode_run ⟨7, 1, 5⟩ 2 savedReboot (by decide) (by decide) (by decide)

/-! ### Divergence stays -/

/-- Neither board is busy or has anything to read, and no frame passes. -/
structure Stranded (pair : PinnedPair) : Prop where
  initiator : pair.initiator.node.ms.busy = false ∧ pair.initiator.ring = []
  responder : pair.responder.node.ms.busy = false ∧ pair.responder.ring = []
  apart : pair.initiator.node.radio.phy ≠ pair.responder.node.radio.phy

theorem Stranded.step (stranded : pair.Stranded) {action : PinnedAction}
    (turn : action.isTurn = true) :
    (pair.step action).initiator = pair.initiator ∧ (pair.step action).responder = pair.responder := by
  have mute : ∀ lost, pair.carries lost = false := by
    intro lost
    simp [carries, stranded.apart]
  have initiator := Station.idle_stays stranded.initiator.1 stranded.initiator.2
  have responder := Station.idle_stays stranded.responder.1 stranded.responder.2
  cases action with
  | request | save | reboot => cases turn
  | initiatorPoll now taken =>
      simp only [PinnedPair.step]
      split
      · exact ⟨(initiator now taken 0 true).2.1, rfl⟩
      · exact ⟨rfl, rfl⟩
  | initiatorSend lost =>
      simp only [PinnedPair.step, mute, Bool.false_eq_true, if_false]
      split <;> exact ⟨rfl, rfl⟩
  | initiatorReceive count =>
      simp only [PinnedPair.step]
      split
      · exact ⟨(initiator 0 0 count true).2.2.2, rfl⟩
      · exact ⟨rfl, rfl⟩
  | initiatorService taken =>
      simp only [PinnedPair.step]
      split
      · exact ⟨(initiator 0 taken 0 true).1, rfl⟩
      · exact ⟨rfl, rfl⟩
  | responderPoll now taken =>
      simp only [PinnedPair.step]
      split
      · exact ⟨rfl, (responder now taken 0 false).2.1⟩
      · exact ⟨rfl, rfl⟩
  | responderReceive count =>
      simp only [PinnedPair.step]
      split
      · exact ⟨rfl, (responder 0 0 count false).2.2.2⟩
      · exact ⟨rfl, rfl⟩
  | responderReply lost =>
      simp only [PinnedPair.step, mute, Bool.false_eq_true, if_false]
      split <;> exact ⟨rfl, rfl⟩
  | responderSent taken =>
      simp only [PinnedPair.step]
      split
      · exact ⟨rfl, (responder 0 taken 0 false).2.2.1⟩
      · exact ⟨rfl, rfl⟩

/-- No turn ends a divergence; only a command or a reboot does. -/
theorem Stranded.run (stranded : pair.Stranded) {actions : List PinnedAction}
    (turns : ∀ action ∈ actions, action.isTurn = true) :
    (actions.foldl PinnedPair.step pair).initiator = pair.initiator ∧
      (actions.foldl PinnedPair.step pair).responder = pair.responder := by
  induction actions generalizing pair with
  | nil => exact ⟨rfl, rfl⟩
  | cons action rest inductionHypothesis =>
      obtain ⟨initiator, responder⟩ := stranded.step (turns action List.mem_cons_self)
      have next : (pair.step action).Stranded := by
        refine ⟨?_, ?_, ?_⟩
        · rw [initiator]
          exact stranded.initiator
        · rw [responder]
          exact stranded.responder
        · rw [initiator, responder]
          exact stranded.apart
      have later := inductionHypothesis next fun action member =>
        turns action (List.mem_cons_of_mem _ member)
      rw [initiator, responder] at later
      exact later

/-- The responder reboots onto the mode from before the switch. -/
def unsavedReboot : List PinnedAction :=
  switchToFast ++ [.reboot false ⟨7, 1, 5⟩]

theorem unsavedReboot_stranded : (unsavedReboot.foldl step (start ⟨7, 1, 5⟩ 2)).Stranded where
  initiator := by decide
  responder := by decide
  apart := by decide

theorem reboot_diverges :
    ¬∀ (built : PhyConfig) (idx : Fin loraModeCount) (actions : List PinnedAction),
      let pair := actions.foldl step (start built idx)
      pair.initiator.node.ms.busy = false → pair.responder.node.ms.busy = false →
        pair.initiator.node.radio = pair.responder.node.radio := by
  intro always
  exact absurd (always ⟨7, 1, 5⟩ 2 unsavedReboot (by decide) (by decide)) (by decide)

end PinnedPair

end LoraSerial.Device
