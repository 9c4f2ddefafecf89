import LoraSerial.Host.TxCounter

/-!
Owns whether a peer notices that a board restarted: the epoch byte a board ends up
with after any mix of boots, reconfigurations and new sessions, and whether the
peer that hears its next frame takes the resync branch. A drawn epoch can repeat and
the increments of new sessions wrap, so the epoch can come back to the one the peer
has recorded.
-/

namespace LoraSerial.Host

open LinkLayer

variable {RING : Nat}

/-! ### The epoch after restarts -/

/-- The word a command draws for a new epoch. -/
def Command.drawn : Command → Option UInt32
  | .atAddr _ random | .atPeer _ random | .atEnc _ random | .atComp _ random | .rendezvous random
  | .atTrain random | .atPair _ _ random | .atFactoryReset _ random => some random
  | _ => none

/-- The command calls `NewSession`. -/
def Command.renews : Command → Bool
  | .hostReconnect | .newSession => true
  | _ => false

/-- The epoch drawn last, and the `NewSession` calls since. -/
structure Restarts where
  drawn : UInt8
  sessions : Nat
deriving DecidableEq

namespace Restarts

def after (restarts : Restarts) : Event → Restarts
  | .boot _ _ random => ⟨drawEpoch random, 0⟩
  | .command c =>
      match c.drawn with
      | some random => ⟨drawEpoch random, 0⟩
      | none => if c.renews then ⟨restarts.drawn, restarts.sessions + 1⟩ else restarts
  | _ => restarts

/-- Each session moves one step through the epochs 1 to 255. -/
def epoch (restarts : Restarts) : Nat :=
  (restarts.drawn.toNat - 1 + restarts.sessions) % 255 + 1

theorem epoch_drawn {drawn : UInt8} (valid : drawn ≠ 0) :
    (⟨drawn, 0⟩ : Restarts).epoch = drawn.toNat := by
  have positive : drawn.toNat ≠ 0 := fun zero => valid (UInt8.toNat_inj.mp zero)
  have small := drawn.toNat_lt
  simp only [epoch]
  omega

theorem epoch_renewed {restarts : Restarts} {epoch : UInt8}
    (current : epoch.toNat = restarts.epoch) :
    (Link.nextEpoch epoch).toNat = (⟨restarts.drawn, restarts.sessions + 1⟩ : Restarts).epoch := by
  have succ : (epoch + 1).toNat = (epoch.toNat + 1) % 256 := UInt8.toNat_add epoch 1
  unfold Link.nextEpoch
  split
  next wrapped =>
    have wrapped : (epoch + 1).toNat = 0 := congrArg UInt8.toNat wrapped
    simp only [Restarts.epoch] at current ⊢
    change 1 = _
    omega
  next ahead =>
    have ahead : (epoch + 1).toNat ≠ 0 := fun zero => ahead (UInt8.toNat_inj.mp zero)
    simp only [Restarts.epoch] at current ⊢
    omega

end Restarts

theorem drawEpoch_ne_zero (random : UInt32) : drawEpoch random ≠ 0 := by
  simp only [drawEpoch]
  split
  · decide
  next nonzero => exact nonzero

namespace Board

def run (fw : Firmware) (board : Board RING) (events : List Event) : Board RING :=
  events.foldl (step fw) board

/-- A running board's epoch is the one its restarts lead to. -/
def EpochIs (board : Board RING) (restarts : Restarts) : Prop :=
  ∀ ram, board.ram = some ram → ram.link.myEpoch.toNat = restarts.epoch

theorem myEpoch_drawn {ram : Ram RING} {random : UInt32}
    (drawn : ram.link.myEpoch = if drawEpoch random ≠ 0 then drawEpoch random else 1) :
    ram.link.myEpoch.toNat = (⟨drawEpoch random, 0⟩ : Restarts).epoch := by
  rw [drawn, if_pos (drawEpoch_ne_zero random), Restarts.epoch_drawn (drawEpoch_ne_zero random)]

/-- What a command does to the epoch. -/
theorem myEpoch_command (fw : Firmware) (board : Board RING) (ram : Ram RING) (c : Command) :
    (ram.command fw board c).ram.link.myEpoch =
      match c.drawn with
      | some random => if drawEpoch random ≠ 0 then drawEpoch random else 1
      | none => if c.renews then Link.nextEpoch ram.link.myEpoch else ram.link.myEpoch := by
  have sent : ∀ {sent : Link.TxResult RING}, (ram.liveLink fw).Transmits sent →
      sent.link.myEpoch = ram.link.myEpoch := by
    intro sent transmits
    have counted : (ram.liveLink fw).nextCounter.1.myEpoch = ram.link.myEpoch := by
      simp only [Link.nextCounter, Link.maybePersist]
      split <;> rfl
    cases transmits with
    | silent frame persisted state | plain h p unkeyed src epoch frame persisted state =>
        exact congrArg (fun state => state.2.1) state
    | sealed key h p keyed src epoch frame persisted state =>
        exact (congrArg (fun state => state.2.1) state).trans counted
  cases c with
  | driveInitiator =>
      simp only [Ram.command, Ram.ensureStarted]
      split
      · split <;> rfl
      · rfl
  | handshakeInit peerPub =>
      simp only [Ram.command, Ram.ensureStarted]
      split
      · split <;> rfl
      · rfl
  | handshakeResp peerPub =>
      simp only [Ram.command]
      split <;> rfl
  | write d =>
      obtain ⟨ring, written⟩ := ram.link.write_link d
      simp only [Ram.command, Ram.quiet, Ram.withLink, written]
      rfl
  | read max =>
      obtain ⟨_, _, _, _, _, taken⟩ := ram.link.read_link max
      simp only [Ram.command, Ram.quiet, Ram.withLink, taken]
      rfl
  | nextTx cap now => exact sent ((ram.liveLink fw).nextTx_transmits fw.heatshrink cap now)
  | makePoll cap => exact sent ((ram.liveLink fw).makePoll_transmits fw.heatshrink cap)
  | onRx input =>
      exact congrArg (fun state => state.2.1) ((ram.liveLink fw).sealState_onRx fw.heatshrink input)
  | atAddr | atPeer | atEnc | atComp | rendezvous | atTrain | atPair | atFactoryReset
  | atFs | atSave | hostReconnect | peerReset | newSession | applyTiming | beginTurn | setCtrlTx
  | setAuxTx => rfl

theorem epochIs_step {fw : Firmware} {board : Board RING} {restarts : Restarts}
    (current : board.EpochIs restarts) (event : Event) :
    (board.step fw event).EpochIs (restarts.after event) := by
  intro next on
  cases event with
  | boot window retransmitMs random =>
      cases on
      exact myEpoch_drawn rfl
  | command c =>
      cases before : board.ram with
      | none => simp [step, nextRam, before] at on
      | some ram =>
          simp only [step, nextRam, before, Option.map_some, Option.some.injEq] at on
          have moved := myEpoch_command fw board ram c
          rw [on] at moved
          simp only [Restarts.after]
          cases drawn : c.drawn with
          | some random =>
              rw [drawn] at moved
              exact myEpoch_drawn moved
          | none =>
              simp only [drawn] at moved ⊢
              split at moved
              next renews =>
                rw [if_pos renews, moved]
                exact Restarts.epoch_renewed (current ram before)
              next keeps =>
                rw [if_neg keeps, moved]
                exact current ram before
  | crash | crashInBoot | crashIn => cases on

theorem epochIs_run (fw : Firmware) {board : Board RING} {restarts : Restarts}
    (current : board.EpochIs restarts) (events : List Event) :
    (board.run fw events).EpochIs (events.foldl Restarts.after restarts) := by
  induction events generalizing board restarts with
  | nil => exact current
  | cons event rest inductionHypothesis => exact inductionHypothesis (epochIs_step current event)

end Board

/-! ### The peer -/

/-- The peer trusts the addresses of the frame, finds an epoch that differs from
the recorded one and runs its resync branch. -/
def Resyncs {PEER : Nat} (peer : Link PEER) (bytes : Bytes) : Prop :=
  match parseHeader bytes with
  | none => False
  | some (h, _) =>
      peer.filters h = false ∧ h.epoch ≠ peer.peerEpoch ∧
        peer.trackEpoch h.epoch = peer.resync h.epoch

/-- The peer does not filter the frame out. -/
def Hears {PEER : Nat} (peer : Link PEER) (bytes : Bytes) : Prop :=
  match parseHeader bytes with
  | none => False
  | some (h, _) => peer.filters h = false

instance {PEER : Nat} (peer : Link PEER) (bytes : Bytes) : Decidable (Hears peer bytes) :=
  match parsed : parseHeader bytes with
  | none => .isFalse (by simp [Hears, parsed])
  | some (h, _) => decidable_of_iff (peer.filters h = false) (by simp [Hears, parsed])

theorem epoch_of_frame {fw : Firmware} {board : Board RING} {ram : Ram RING} {c : Command}
    {bytes : Bytes} (handed : (ram.command fw board c).frame = some bytes) :
    ∃ h body, parseHeader bytes = some (h, body) ∧ h.epoch = ram.link.myEpoch := by
  have emitted : ∀ {sent : Link.TxResult RING}, (ram.liveLink fw).Transmits sent →
      sent.frame = some bytes →
      ∃ h body, parseHeader bytes = some (h, body) ∧ h.epoch = ram.link.myEpoch := by
    intro sent transmits frame
    cases transmits with
    | silent noFrame =>
        rw [noFrame] at frame
        cases frame
    | sealed key h p keyed src epoch sealed =>
        rw [sealed] at frame
        cases frame
        exact ⟨h, _, by rw [sealFrame_eq, parseHeader_headerBytes], epoch⟩
    | plain h p unkeyed src epoch plain =>
        rw [plain] at frame
        cases frame
        exact ⟨h, p, parseHeader_headerBytes h p, epoch⟩
  cases c with
  | nextTx cap now =>
      exact emitted ((ram.liveLink fw).nextTx_transmits fw.heatshrink cap now) handed
  | makePoll cap =>
      exact emitted ((ram.liveLink fw).makePoll_transmits fw.heatshrink cap) handed
  | driveInitiator | handshakeInit | handshakeResp =>
      simp only [Ram.command] at handed
      split at handed <;> cases handed
  | atAddr | atPeer | atEnc | atComp | rendezvous | atTrain | atPair | atFactoryReset
  | atFs | atSave | hostReconnect | peerReset | newSession | applyTiming | beginTurn | setCtrlTx
  | setAuxTx | write | read | onRx => cases handed

/-- From any state of a board, after any events, a peer that hears the board's next
frame runs its resync branch exactly when the epoch the restarts lead to is not the
one it has recorded. -/
theorem resyncs_iff_epoch_ne (fw : Firmware) (board : Board RING) {restarts : Restarts}
    (prior : board.EpochIs restarts) (events : List Event) {ram : Ram RING}
    (on : (board.run fw events).ram = some ram) {c : Command} {bytes : Bytes}
    (handed : (ram.command fw (board.run fw events) c).frame = some bytes) {PEER : Nat}
    {peer : Link PEER} (linked : peer.peerEpoch ≠ 0) (heard : Hears peer bytes) :
    Resyncs peer bytes ↔
      (events.foldl Restarts.after restarts).epoch ≠ peer.peerEpoch.toNat := by
  obtain ⟨h, body, parsed, epoch⟩ := epoch_of_frame handed
  have reached := Board.epochIs_run fw prior events ram on
  simp only [Hears, parsed] at heard
  simp only [Resyncs, parsed, heard, true_and, ← reached, ← epoch]
  constructor
  · rintro ⟨changed, -⟩ same
    exact changed (UInt8.toNat_inj.mp same)
  · intro changed
    have changed : h.epoch ≠ peer.peerEpoch := fun same => changed (congrArg UInt8.toNat same)
    refine ⟨changed, ?_⟩
    rw [Link.trackEpoch, if_neg linked, if_pos changed]

theorem not_resyncs_of_peerEpoch {PEER : Nat} {peer : Link PEER} {bytes : Bytes}
    (same : ∃ pair, parseHeader bytes = some pair ∧ pair.1.epoch = peer.peerEpoch) :
    ¬Resyncs peer bytes := by
  obtain ⟨⟨h, body⟩, parsed, same⟩ := same
  simp only [Resyncs, parsed]
  exact fun resyncs => resyncs.2.1 same

/-! ### An epoch that comes back -/

/-- A board that has booted with epoch 7. -/
def bootedBoard : Board 64 :=
  ({ flash := Flash.empty, ram := none, pairings := 0, handshakes := 0 } : Board 64).step
    Firmware.default (.boot 8 1200 7)

/-- The poll a board sends after the events. -/
def pollAfter (events : List Event) : Bytes :=
  match (bootedBoard.run Firmware.default events).ram with
  | none => []
  | some ram =>
      ((ram.command Firmware.default (bootedBoard.run Firmware.default events)
        (.makePoll 255)).frame).getD []

/-- A peer that has heard the board's first poll. -/
def linkedPeer : Link 64 :=
  (((Link.zeroed Config.default).init
    { Config.default with addr := 2, peer := 1, encrypt := true, key := some linkKey }).onRx
      Heatshrink.copying (pollAfter [])).link

/-- A reboot that draws epoch 7 again and 255 new sessions both lead back to the
epoch the peer has recorded: it hears the next frame and does not resync. -/
theorem repeated_epoch_unnoticed :
    linkedPeer.peerEpoch = 7 ∧
      (Hears linkedPeer (pollAfter [.crash, .boot 8 1200 7]) ∧
        ¬Resyncs linkedPeer (pollAfter [.crash, .boot 8 1200 7])) ∧
      Hears linkedPeer (pollAfter (List.replicate 255 (.command .newSession))) ∧
        ¬Resyncs linkedPeer (pollAfter (List.replicate 255 (.command .newSession))) := by
  refine ⟨by decide +kernel, ⟨by decide +kernel, not_resyncs_of_peerEpoch ?_⟩, by decide +kernel,
    not_resyncs_of_peerEpoch ?_⟩
  · exact ⟨((parseHeader (pollAfter [.crash, .boot 8 1200 7])).get (by decide +kernel)),
      by decide +kernel⟩
  · exact ⟨((parseHeader (pollAfter (List.replicate 255 (.command .newSession)))).get
      (by decide +kernel)), by decide +kernel⟩

/-- After a reboot that draws epoch 9 the peer resyncs. -/
theorem resyncs_iff_epoch_ne_rebooted :
    Resyncs linkedPeer (pollAfter [.crash, .boot 8 1200 9]) := by
  have current : bootedBoard.EpochIs ⟨7, 0⟩ := by
    intro ram on
    cases on
    decide +kernel
  obtain ⟨ram, on, handed⟩ : ∃ ram,
      (bootedBoard.run Firmware.default [.crash, .boot 8 1200 9]).ram = some ram ∧
        (ram.command Firmware.default (bootedBoard.run Firmware.default [.crash, .boot 8 1200 9])
          (.makePoll 255)).frame = some (pollAfter [.crash, .boot 8 1200 9]) :=
    ⟨_, rfl, by decide +kernel⟩
  exact (resyncs_iff_epoch_ne Firmware.default bootedBoard current [.crash, .boot 8 1200 9] on
    handed (by decide +kernel) (by decide +kernel)).mpr (by decide +kernel)

end LoraSerial.Host
