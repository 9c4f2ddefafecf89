import LoraSerial.Device.Watchdog

/-!
Owns two boards in 'auto': passes with their fallbacks and reboots, turns over a channel
that is deaf between modes and may lose either direction, frames left over in an RX ring,
and power cycles. Times are true milliseconds; each board reads them through a 32-bit
clock of its own. A turn is one step, as neither loop runs a fallback inside one. What the
link and the session do with a turn is not part of it.
-/

namespace LoraSerial.Device

open Library.Run

/-! ### One board -/

/-- A board, what its clock reads at true time 0, and what its flash and build hold. -/
structure AutoBoard where
  watch : Watch
  start : UInt32
  built : PhyConfig
  saved : PhyConfig
  savedAdr : Bool
deriving DecidableEq, Repr

/-- The ladder has a rung for each preset. -/
def AdrAction.onLadder : AdrAction → AdrAction
  | .request idx => if idx < rfModeCount then .request idx else .none
  | action => action

namespace AutoBoard

def clock (board : AutoBoard) (time : Nat) : UInt32 :=
  board.start + UInt32.ofNat time

abbrev radio (board : AutoBoard) : Radio := board.watch.node.radio

abbrev ms (board : AutoBoard) : ModeSwitch := board.watch.node.ms

def boot (built saved : PhyConfig) (adr : Bool) (time : Nat) : AutoBoard where
  watch :=
    { node := .setup built saved, adr := adr, lastRx := 0, lastRendezvous := 0, lastReinit := 0 }
  start := 0 - UInt32.ofNat time
  built := built
  saved := saved
  savedAdr := adr

/-- `AT+MODE=auto` -/
def auto (board : AutoBoard) : AutoBoard :=
  { board with watch := { board.watch with adr := true } }

def reboot (board : AutoBoard) (time : Nat) : AutoBoard :=
  boot board.built board.saved board.savedAdr time

variable (timeOnAir : Phy → UInt32)

/-- `DriveAdr` returns at once without FEAT_ADR. -/
def decision (board : AutoBoard) (pass : SilentPass) : AdrAction :=
  if board.watch.adr then pass.decision.onLadder else .none

/-- A pass of the loop, up to its turn. Irreducible, so that a board and its next pass are
not compared field by field. -/
@[irreducible]
def pass (board : AutoBoard) (pass : SilentPass) : AutoBoard :=
  let entered := Watch.enterPass timeOnAir board.start board.watch pass
  if entered.maybeReboot timeOnAir (board.clock pass.reboot) then board.reboot pass.reboot
  else { board with watch := entered.driveAdr (board.decision pass) }

/-- A probation, a rendezvous or a reboot is due in the pass. -/
def timesOut (board : AutoBoard) (pass : SilentPass) : Bool :=
  board.ms.expires (board.clock pass.polled) ||
    board.watch.moves timeOnAir (board.clock pass.rendezvous) ||
    board.watch.maybeReboot timeOnAir (board.clock pass.reboot)

/-- A turn with a frame of the peer, as far as `AfterRecv`. -/
def hear (board : AutoBoard) (nib : UInt8) (isInitiator : Bool) (time : Nat) : AutoBoard :=
  { board with watch := { board.watch with
      lastRx := board.clock time
      node := { board.watch.node with ms := board.ms.afterRecv nib isInitiator } } }

def serviced (board : AutoBoard) (time : Nat) : AutoBoard :=
  { board with watch := { board.watch with
      node := board.watch.node.serviceModeSwitch (board.clock time) } }

/-- The end of the responder's turn. -/
def sent (board : AutoBoard) (time : Nat) : AutoBoard :=
  { board with watch := { board.watch with
      node := board.watch.node.step (.sent (board.clock time)) } }

end AutoBoard

/-! ### Two boards -/

structure AutoPair where
  initiator : AutoBoard
  responder : AutoBoard
deriving DecidableEq, Repr

/-- Only the initiator runs DriveAdr. `heard` and `replied` say whether the burst and the
reply arrive. `leftover` is a frame in the RX ring from an earlier turn, with the index it
carries if any. -/
inductive AutoEvent where
  | initiatorPass (pass : SilentPass)
  | responderPass (pass : SilentPass)
  | turn (time : Nat) (heard replied : Bool)
  | leftover (isInitiator : Bool) (mode : Option (Fin rfModeCount)) (ack : Bool) (time : Nat)
  | powerCycle (isInitiator : Bool) (time : Nat)
deriving DecidableEq, Repr

namespace AutoPair

/-- Both ends hear each other. -/
def sameMode (pair : AutoPair) : Bool :=
  pair.initiator.radio.phy == pair.responder.radio.phy

/-- The responder takes the burst and replies on the mode it heard it on. -/
def respond (pair : AutoPair) (time : Nat) : AutoBoard × UInt8 :=
  let heard := pair.responder.hear pair.initiator.ms.txCtrl false time
  (heard.sent time, heard.ms.txCtrl)

def turn (pair : AutoPair) (time : Nat) (heard replied : Bool) : AutoPair :=
  if pair.sameMode && heard then
    let responded := pair.respond time
    { initiator :=
        if replied then (pair.initiator.hear responded.2 true time).serviced time
        else pair.initiator
      responder := responded.1 }
  else pair

def step (timeOnAir : Phy → UInt32) (pair : AutoPair) : AutoEvent → AutoPair
  | .initiatorPass pass => { pair with initiator := pair.initiator.pass timeOnAir pass }
  | .responderPass pass =>
      { pair with responder := pair.responder.pass timeOnAir { pass with decision := .none } }
  | .turn time heard replied => pair.turn time heard replied
  | .leftover true mode ack time =>
      { pair with initiator :=
          (pair.initiator.hear (ctrlEncode (mode.map Fin.val) ack) true time).serviced time }
  | .leftover false mode ack time =>
      { pair with responder :=
          (pair.responder.hear (ctrlEncode (mode.map Fin.val) ack) false time).sent time }
  | .powerCycle true time => { pair with initiator := pair.initiator.reboot time }
  | .powerCycle false time => { pair with responder := pair.responder.reboot time }

/-- Both boards boot, and `AT+MODE=auto` is given on the initiator, which has FEAT_ADR in
its flash too if `kept`; `adr` is FEAT_ADR of the responder. -/
def start (built savedInitiator savedResponder : PhyConfig) (kept adr : Bool) : AutoPair where
  initiator := (AutoBoard.boot built savedInitiator kept 0).auto
  responder := .boot built savedResponder adr 0

/-- Both boards are on one mode and neither has a switch pending. -/
def Converged (pair : AutoPair) : Prop :=
  pair.initiator.radio = pair.responder.radio ∧ pair.initiator.ms.busy = false ∧
    pair.responder.ms.busy = false

instance (pair : AutoPair) : Decidable pair.Converged :=
  inferInstanceAs (Decidable (_ ∧ _ ∧ _))

/-- No board hears about a switch in the millisecond in which its clock reads 0, which
would mark it as never linked. -/
def Stamped (pair : AutoPair) : AutoEvent → Prop
  | .turn time heard replied =>
      (pair.sameMode && heard) = true → pair.initiator.ms.target ≠ none →
        pair.responder.clock time ≠ 0 ∧ (replied = true → pair.initiator.clock time ≠ 0)
  | .leftover true _ _ time => pair.initiator.ms.target ≠ none → pair.initiator.clock time ≠ 0
  | .leftover false mode _ time => mode ≠ none → pair.responder.clock time ≠ 0
  | _ => True

end AutoPair

/-! ### Between turns -/

/-- The engine names the radio's mode and holds indices of presets only. -/
structure Node.Sane (node : Node) : Prop where
  coherent : node.radio.Coherent
  mirrors : node.ms.current = node.radio.currentModeIndex
  prev : ∀ idx ∈ node.ms.prev, idx < rfModeCount
  target : ∀ idx ∈ node.ms.target, idx < rfModeCount
  apply : ∀ idx ∈ node.ms.apply, idx < rfModeCount
  limit : node.ms.probationMs = probationMs

/-- Between turns the only thing an engine can have pending is a request, for another
mode than its own. -/
structure Node.Settled (node : Node) : Prop extends node.Sane where
  applied : node.ms.apply = none
  armed : node.ms.armed = none
  oweAck : node.ms.oweAck = none
  asks : ∀ idx ∈ node.ms.target, node.ms.current ≠ some idx ∧ node.ms.probation = false

namespace Node

variable {node : Node}

theorem settled_begin {node : Node} (coherent : node.radio.Coherent) :
    node.beginModeSwitch.Settled where
  coherent := coherent
  mirrors := rfl
  prev := fun _ current => Radio.lt_of_currentModeIndex current
  target := nofun
  apply := nofun
  limit := rfl
  applied := rfl
  armed := rfl
  oweAck := rfl
  asks := nofun

theorem settled_setup (built saved : PhyConfig) : (Node.setup built saved).Settled := by
  let unseeded : Node := { radio := Radio.setup built saved, ms := .begin probationMs none }
  have coherent : unseeded.radio.Coherent := Radio.coherent_setup built saved
  exact settled_begin coherent

/-- A service applies what is pending. -/
theorem Sane.serviced (sane : node.Sane) (armed : node.ms.armed = none)
    (oweAck : node.ms.oweAck = none)
    (asks : ∀ idx ∈ node.ms.target, node.ms.current ≠ some idx ∧ node.ms.probation = false)
    (idle : node.ms.apply ≠ none → node.ms.target = none) (taken : UInt32) :
    (node.serviceModeSwitch taken).Settled := by
  unfold Node.serviceModeSwitch
  cases pending : node.ms.apply with
  | none =>
      have nothing : node.ms.takeApply taken = none := by simp [ModeSwitch.takeApply, pending]
      rw [nothing]
      exact { sane with applied := pending, armed := armed, oweAck := oweAck, asks := asks }
  | some idx =>
      have inside := sane.apply idx pending
      have took : node.ms.takeApply taken = some (idx, { node.ms with
          apply := none
          prev := if some idx ≠ node.ms.current then node.ms.current else node.ms.prev
          current := some idx
          probation := true
          probationStart := taken }) := by
        simp [ModeSwitch.takeApply, pending]
      rw [took]
      have free : node.ms.target = none := idle (by rw [pending]; exact Option.some_ne_none idx)
      refine ⟨⟨?_, ?_, ?_, sane.target, by simp, sane.limit⟩, rfl, armed, oweAck, ?_⟩
      · exact Radio.coherent_applyModeByIndex sane.coherent _
      · exact (Radio.currentModeIndex_applied _ inside).symm
      · intro old prev
        dsimp only at prev
        split at prev
        · rw [sane.mirrors] at prev
          exact Radio.lt_of_currentModeIndex prev
        · exact sane.prev old prev
      · dsimp only
        rw [free]
        simp

/-- A probation that has not run out leaves the node as it is. -/
theorem Settled.polled_running (settled : node.Settled) {now : UInt32}
    (running : node.ms.expires now = false) (taken : UInt32) :
    node.step (.polled now taken) = node := by
  simp only [Node.step, ModeSwitch.poll_of_not_expires running, Node.serviceModeSwitch,
    ModeSwitch.takeApply, settled.applied]

theorem Settled.polled (settled : node.Settled) (now taken : UInt32) :
    (node.step (.polled now taken)).Settled := by
  cases expired : node.ms.expires now with
  | false =>
      rw [settled.polled_running expired]
      exact settled
  | true =>
      have probation : node.ms.probation = true := by
        simp only [ModeSwitch.expires, Bool.and_eq_true] at expired
        exact expired.1
      have free : node.ms.target = none := by
        cases asked : node.ms.target with
        | none => rfl
        | some idx => exact absurd probation (by simp [(settled.asks idx asked).2])
      simp only [Node.step, ModeSwitch.poll_of_expires expired]
      have falls : ({ node with ms := { node.ms with probation := false, apply := node.ms.prev } } :
          Node).Sane :=
        ⟨settled.coherent, settled.mirrors, settled.prev, settled.target, settled.prev,
          settled.limit⟩
      refine falls.serviced settled.armed settled.oweAck ?_ (fun _ => free) taken
      dsimp only
      rw [free]
      simp

theorem Settled.rendezvous (settled : node.Settled) : node.rendezvous.Settled := by
  unfold Node.rendezvous
  split
  · exact settled_begin (Radio.coherent_applyModeByIndex settled.coherent _)
  · exact settled

theorem Settled.reinit (settled : node.Settled) :
    ({ node with radio := node.radio.reinit } : Node).Settled := by
  rw [settled.coherent.reinit]
  exact settled

/-- A request for a rung of the ladder. -/
theorem Settled.request (settled : node.Settled) {idx : Nat} (rung : idx < rfModeCount) :
    ({ node with ms := node.ms.request idx } : Node).Settled := by
  unfold ModeSwitch.request
  split
  · exact settled
  next free =>
    simp only [not_or, ModeSwitch.busy, Bool.or_eq_true, Bool.not_eq_true] at free
    refine { settled with target := ?_, asks := ?_ }
    · rintro _ ⟨⟩
      exact rung
    · rintro _ ⟨⟩
      exact ⟨Ne.symm free.1, free.2.2⟩

theorem Settled.abort (settled : node.Settled) :
    ({ node with ms := node.ms.abort } : Node).Settled :=
  { settled with target := nofun, armed := rfl, oweAck := rfl, asks := nofun }

/-- Hearing a frame without effect on the engine's indices. -/
theorem Settled.calm (settled : node.Settled) :
    ({ node with ms := { node.ms with probation := false } } : Node).Settled :=
  { settled with asks := fun idx asked => ⟨(settled.asks idx asked).1, rfl⟩ }

theorem Settled.service (settled : node.Settled) (taken : UInt32) :
    node.serviceModeSwitch taken = node := by
  simp only [Node.serviceModeSwitch, ModeSwitch.takeApply, settled.applied]

theorem Settled.send (settled : node.Settled) (taken : UInt32) :
    node.step (.sent taken) = node := by
  have quiet : node.ms.afterSend = node.ms := by simp [ModeSwitch.afterSend, settled.armed]
  simp only [Node.step, quiet]
  exact settled.service taken

/-- The initiator's turn: an ACK becomes pending and is applied. -/
theorem Settled.initiatorTurn (settled : node.Settled) (nib : UInt8) (taken : UInt32) :
    (({ node with ms := node.ms.afterRecv nib true } : Node).serviceModeSwitch taken).Settled := by
  unfold ModeSwitch.afterRecv
  dsimp only
  split
  · rw [settled.calm.service]
    exact settled.calm
  next mode carried =>
    rw [if_pos rfl]
    split
    next acknowledged =>
      have inside : ∀ idx ∈ (some mode : Option Nat), idx < rfModeCount := by
        rintro _ ⟨⟩
        exact settled.target mode acknowledged.2.symm
      have taking : ({ node with ms :=
          { node.ms with probation := false, apply := some mode, target := none } } : Node).Sane :=
        ⟨settled.coherent, settled.mirrors, settled.prev, nofun, inside, settled.limit⟩
      exact taking.serviced settled.armed settled.oweAck nofun (fun _ => rfl) taken
    · rw [settled.calm.service]
      exact settled.calm

/-- An initiator without a request is not put on probation. -/
theorem Settled.initiatorTurn_calm (settled : node.Settled) (silent : node.ms.target = none)
    (nib : UInt8) (taken : UInt32) :
    (({ node with ms := node.ms.afterRecv nib true } : Node).serviceModeSwitch taken).ms.probation =
      false := by
  have calm : node.ms.afterRecv nib true = { node.ms with probation := false } := by
    unfold ModeSwitch.afterRecv
    dsimp only
    split
    · rfl
    · rw [if_pos rfl, if_neg (by simp [silent])]
  rw [calm, settled.calm.service]

/-- A frame without an index puts no responder on probation. -/
theorem Settled.responderTurn_calm (settled : node.Settled) {nib : UInt8}
    (silent : ctrlModeIdx nib = none) (taken : UInt32) :
    (({ node with ms := node.ms.afterRecv nib false } : Node).step (.sent taken)).ms.probation =
      false := by
  have calm : node.ms.afterRecv nib false = { node.ms with probation := false } := by
    unfold ModeSwitch.afterRecv
    rw [silent]
  rw [calm, settled.calm.send]

/-- The responder's turn: a request is armed, acknowledged and applied. -/
theorem Settled.responderTurn (settled : node.Settled) (follows : node.ms.target = none)
    {nib : UInt8} (carried : ∀ idx ∈ ctrlModeIdx nib, idx < rfModeCount) (taken : UInt32) :
    (({ node with ms := node.ms.afterRecv nib false } : Node).step (.sent taken)).Settled := by
  unfold ModeSwitch.afterRecv
  dsimp only
  split
  · rw [settled.calm.send]
    exact settled.calm
  next mode carries =>
    rw [if_neg Bool.false_ne_true]
    split
    · have inside : ∀ idx ∈ (some mode : Option Nat), idx < rfModeCount := by
        rintro _ ⟨⟩
        exact carried mode carries
      have taking : ({ node with ms :=
          { node.ms with probation := false, apply := some mode, armed := none, oweAck := none } } :
            Node).Sane :=
        ⟨settled.coherent, settled.mirrors, settled.prev, settled.target, inside, settled.limit⟩
      refine taking.serviced rfl rfl ?_ (fun _ => follows) taken
      dsimp only
      rw [follows]
      simp
    · rw [settled.calm.send]
      exact settled.calm

theorem target_serviced (node : Node) (taken : UInt32) :
    (node.serviceModeSwitch taken).ms.target = node.ms.target := by
  unfold Node.serviceModeSwitch ModeSwitch.takeApply
  cases node.ms.apply <;> rfl

theorem target_polled (node : Node) (now taken : UInt32) :
    (node.step (.polled now taken)).ms.target = node.ms.target := by
  refine (target_serviced _ taken).trans ?_
  change (node.ms.poll now).target = node.ms.target
  unfold ModeSwitch.poll
  split <;> rfl

theorem target_responderTurn (node : Node) (nib : UInt8) (taken : UInt32) :
    (({ node with ms := node.ms.afterRecv nib false } : Node).step (.sent taken)).ms.target =
      node.ms.target := by
  have heard : (node.ms.afterRecv nib false).target = node.ms.target := by
    unfold ModeSwitch.afterRecv
    dsimp only
    split
    · rfl
    · rw [if_neg Bool.false_ne_true]
      split <;> rfl
  refine (target_serviced _ _).trans (Eq.trans ?_ heard)
  change (node.ms.afterRecv nib false).afterSend.target = (node.ms.afterRecv nib false).target
  unfold ModeSwitch.afterSend
  split <;> rfl

end Node

/-- Between turns: the node is settled, a responder requests nothing, and a probation
began with a frame. -/
structure Watch.Steady (isInitiator : Bool) (watch : Watch) : Prop where
  node : watch.node.Settled
  follows : isInitiator = false → watch.node.ms.target = none
  linked : watch.node.ms.probation = true → watch.lastRx ≠ 0

namespace Watch

variable {timeOnAir : Phy → UInt32} {isInitiator : Bool} {watch : Watch}

theorem Steady.polled (steady : watch.Steady isInitiator) (now taken : UInt32) :
    ({ watch with node := watch.node.step (.polled now taken) } : Watch).Steady isInitiator where
  node := steady.node.polled now taken
  follows := fun responder => (Node.target_polled _ now taken).trans (steady.follows responder)
  linked := by
    intro probation
    cases expired : watch.node.ms.expires now with
    | false =>
        dsimp only at probation
        rw [steady.node.polled_running expired] at probation
        exact steady.linked probation
    | true =>
        simp only [ModeSwitch.expires, Bool.and_eq_true] at expired
        exact steady.linked expired.1

theorem Steady.maybeReinitRadio (steady : watch.Steady isInitiator) (now : UInt32) :
    (watch.maybeReinitRadio timeOnAir now).Steady isInitiator := by
  unfold Watch.maybeReinitRadio
  split
  · exact steady
  · split
    · exact steady
    · exact ⟨steady.node.reinit, steady.follows, steady.linked⟩

theorem Steady.rendezvous (steady : watch.Steady isInitiator) :
    ({ watch with node := watch.node.rendezvous } : Watch).Steady isInitiator := by
  refine ⟨steady.node.rendezvous, ?_, ?_⟩ <;> unfold Node.rendezvous <;> dsimp only <;> split
  · exact fun _ => rfl
  · exact steady.follows
  · exact nofun
  · exact steady.linked

theorem Steady.maybeRendezvous (steady : watch.Steady isInitiator) (now : UInt32) :
    (watch.maybeRendezvous timeOnAir now).Steady isInitiator := by
  unfold Watch.maybeRendezvous
  split
  · exact steady
  · split
    · exact steady
    · split
      · exact steady
      · exact { steady.rendezvous with }

theorem Steady.enterPass (steady : watch.Steady isInitiator) (start : UInt32) (pass : SilentPass) :
    (Watch.enterPass timeOnAir start watch pass).Steady isInitiator :=
  ((steady.polled _ _).maybeReinitRadio _).maybeRendezvous _

theorem Steady.driveAdr (steady : watch.Steady isInitiator) (decision : AdrAction)
    (drives : isInitiator = false → decision = .none) :
    (watch.driveAdr decision.onLadder).Steady isInitiator := by
  cases decision with
  | none => exact steady
  | abort =>
      exact ⟨steady.node.abort, fun _ => rfl, steady.linked⟩
  | request idx =>
      have initiator : isInitiator ≠ false := fun responder => nomatch drives responder
      simp only [AdrAction.onLadder]
      split
      next rung =>
        refine ⟨steady.node.request rung, fun responder => absurd responder initiator, ?_⟩
        intro probation
        refine steady.linked ?_
        exact (ModeSwitch.request_probation watch.node.ms idx).symm.trans probation
      · exact steady

/-! The recovery lines leave FEAT_ADR and the silence clock alone. -/

theorem maybeReinitRadio_keeps (timeOnAir : Phy → UInt32) (watch : Watch) (now : UInt32) :
    (watch.maybeReinitRadio timeOnAir now).adr = watch.adr ∧
      (watch.maybeReinitRadio timeOnAir now).lastRx = watch.lastRx := by
  unfold Watch.maybeReinitRadio
  split
  · exact ⟨rfl, rfl⟩
  · split <;> exact ⟨rfl, rfl⟩

theorem maybeRendezvous_keeps (timeOnAir : Phy → UInt32) (watch : Watch) (now : UInt32) :
    (watch.maybeRendezvous timeOnAir now).adr = watch.adr ∧
      (watch.maybeRendezvous timeOnAir now).lastRx = watch.lastRx := by
  unfold Watch.maybeRendezvous
  split
  · exact ⟨rfl, rfl⟩
  · split
    · exact ⟨rfl, rfl⟩
    · split <;> exact ⟨rfl, rfl⟩

theorem driveAdr_keeps (watch : Watch) (decision : AdrAction) :
    (watch.driveAdr decision).adr = watch.adr ∧
      (watch.driveAdr decision).lastRx = watch.lastRx := by
  cases decision <;> exact ⟨rfl, rfl⟩

theorem enterPass_keeps (timeOnAir : Phy → UInt32) (start : UInt32) (watch : Watch)
    (pass : SilentPass) :
    (Watch.enterPass timeOnAir start watch pass).adr = watch.adr ∧
      (Watch.enterPass timeOnAir start watch pass).lastRx = watch.lastRx := by
  unfold Watch.enterPass
  dsimp only
  rw [(maybeRendezvous_keeps _ _ _).1, (maybeRendezvous_keeps _ _ _).2,
    (maybeReinitRadio_keeps _ _ _).1, (maybeReinitRadio_keeps _ _ _).2]
  exact ⟨rfl, rfl⟩

end Watch

/-- A steady board whose FEAT_ADR is on and saved. -/
structure AutoBoard.Valid (isInitiator : Bool) (board : AutoBoard) : Prop where
  steady : board.watch.Steady isInitiator
  adr : board.watch.adr = true
  saved : board.savedAdr = true

namespace AutoBoard

variable {timeOnAir : Phy → UInt32} {isInitiator : Bool} {board : AutoBoard}

theorem valid_boot (isInitiator : Bool) (built saved : PhyConfig) (time : Nat) :
    (boot built saved true time).Valid isInitiator where
  steady := ⟨Node.settled_setup built saved, fun _ => rfl, nofun⟩
  adr := rfl
  saved := rfl

theorem Valid.reboot (valid : board.Valid isInitiator) (time : Nat) :
    (board.reboot time).Valid isInitiator := by
  unfold AutoBoard.reboot
  rw [valid.saved]
  exact valid_boot isInitiator _ _ time

theorem Valid.pass (valid : board.Valid isInitiator) (pass : SilentPass)
    (drives : isInitiator = false → pass.decision = .none) :
    (board.pass timeOnAir pass).Valid isInitiator := by
  unfold AutoBoard.pass
  dsimp only
  split
  · exact valid.reboot _
  · have decides : board.decision pass = pass.decision.onLadder := if_pos valid.adr
    rw [decides]
    refine ⟨(valid.steady.enterPass _ pass).driveAdr _ drives, ?_, valid.saved⟩
    dsimp only
    rw [(Watch.driveAdr_keeps _ _).1, (Watch.enterPass_keeps _ _ _ _).1]
    exact valid.adr

/-- A heard initiator's turn. -/
theorem Valid.initiatorTurn (valid : board.Valid true) (nib : UInt8) {time : Nat}
    (stamped : board.ms.target ≠ none → board.clock time ≠ 0) :
    ((board.hear nib true time).serviced time).Valid true where
  steady := by
    refine ⟨valid.steady.node.initiatorTurn nib _, nofun, fun probation => stamped ?_⟩
    intro silent
    have calm := valid.steady.node.initiatorTurn_calm silent nib (board.clock time)
    exact Bool.false_ne_true (calm.symm.trans probation)
  adr := valid.adr
  saved := valid.saved

/-- A heard responder's turn. -/
theorem Valid.responderTurn (valid : board.Valid false) {nib : UInt8}
    (carried : ∀ idx ∈ ctrlModeIdx nib, idx < rfModeCount) {time : Nat}
    (stamped : ctrlModeIdx nib ≠ none → board.clock time ≠ 0) :
    ((board.hear nib false time).sent time).Valid false where
  steady := by
    have follows := valid.steady.follows rfl
    refine ⟨valid.steady.node.responderTurn follows carried _, fun _ => ?_, fun probation => ?_⟩
    · exact (Node.target_responderTurn _ nib _).trans follows
    · refine stamped fun silent => ?_
      have calm := valid.steady.node.responderTurn_calm silent (board.clock time)
      exact Bool.false_ne_true (calm.symm.trans probation)
  adr := valid.adr
  saved := valid.saved

end AutoBoard

theorem carried_encode {mode : Option Nat} (inside : ∀ idx ∈ mode, idx < rfModeCount) (ack : Bool) :
    ∀ idx ∈ ctrlModeIdx (ctrlEncode mode ack), idx < rfModeCount := by
  intro idx carried
  cases mode with
  | none => simp at carried
  | some held =>
      have bound := inside held rfl
      have small : held < modeCount := Nat.lt_trans bound (by decide)
      rw [ctrlModeIdx_encode small ack] at carried
      cases carried
      exact bound

theorem Node.Settled.txCtrl {node : Node} (settled : node.Settled) :
    node.ms.txCtrl = ctrlEncode node.ms.target false := by
  unfold ModeSwitch.txCtrl
  rw [settled.oweAck, if_neg (by simp)]
  cases node.ms.target <;> rfl

namespace AutoPair

/-- Both boards are steady and in 'auto'. -/
structure Valid (pair : AutoPair) : Prop where
  initiator : pair.initiator.Valid true
  responder : pair.responder.Valid false

variable {timeOnAir : Phy → UInt32} {pair : AutoPair}

theorem valid_mk {initiator responder : AutoBoard} (first : initiator.Valid true)
    (second : responder.Valid false) :
    Valid { initiator := initiator, responder := responder } :=
  ⟨first, second⟩

theorem valid_start (built savedInitiator savedResponder : PhyConfig) :
    (start built savedInitiator savedResponder true true).Valid where
  initiator := AutoBoard.valid_boot true built savedInitiator 0
  responder := AutoBoard.valid_boot false built savedResponder 0

theorem Valid.turn (valid : pair.Valid) {time : Nat} {heard replied : Bool}
    (stamped : pair.Stamped (.turn time heard replied)) : (pair.turn time heard replied).Valid := by
  unfold AutoPair.turn
  split
  next hears =>
    have stamped := stamped hears
    have carried : ∀ idx ∈ ctrlModeIdx pair.initiator.ms.txCtrl, idx < rfModeCount := by
      rw [valid.initiator.steady.node.txCtrl]
      exact carried_encode valid.initiator.steady.node.target false
    have asking : ctrlModeIdx pair.initiator.ms.txCtrl ≠ none →
        pair.initiator.ms.target ≠ none := by
      rw [valid.initiator.steady.node.txCtrl]
      intro carries silent
      rw [silent] at carries
      exact carries (ctrlModeIdx_none false)
    refine ⟨?_, valid.responder.responderTurn carried fun carries => (stamped (asking carries)).1⟩
    dsimp only
    split
    next replied =>
      exact valid.initiator.initiatorTurn _ fun asks => (stamped asks).2 replied
    · exact valid.initiator
  · exact valid

theorem Valid.step (valid : pair.Valid) {event : AutoEvent} (stamped : pair.Stamped event) :
    (pair.step timeOnAir event).Valid := by
  cases event with
  | initiatorPass pass =>
      have passed : (pair.initiator.pass timeOnAir pass).Valid true :=
        AutoBoard.Valid.pass valid.initiator pass nofun
      exact valid_mk passed valid.responder
  | responderPass pass =>
      have passed : (pair.responder.pass timeOnAir { pass with decision := .none }).Valid false :=
        AutoBoard.Valid.pass valid.responder _ fun _ => rfl
      exact valid_mk valid.initiator passed
  | turn time heard replied => exact valid.turn stamped
  | leftover isInitiator mode ack time =>
      have inside : ∀ idx ∈ mode.map Fin.val, idx < rfModeCount := by
        intro idx held
        obtain ⟨rung, -, rfl⟩ := Option.map_eq_some_iff.mp held
        exact rung.isLt
      cases isInitiator with
      | true =>
          have stamped : pair.initiator.ms.target ≠ none → pair.initiator.clock time ≠ 0 := stamped
          simp only [AutoPair.step]
          exact ⟨valid.initiator.initiatorTurn _ stamped, valid.responder⟩
      | false =>
          have stamped : mode ≠ none → pair.responder.clock time ≠ 0 := stamped
          have carries : ctrlModeIdx (ctrlEncode (mode.map Fin.val) ack) ≠ none → mode ≠ none := by
            rintro carried rfl
            exact carried (ctrlModeIdx_none ack)
          simp only [AutoPair.step]
          refine ⟨valid.initiator, ?_⟩
          exact valid.responder.responderTurn (carried_encode inside ack) fun carried =>
            stamped (carries carried)
  | powerCycle isInitiator time =>
      cases isInitiator with
      | true => exact ⟨valid.initiator.reboot time, valid.responder⟩
      | false => exact ⟨valid.initiator, valid.responder.reboot time⟩

/-- Whatever is lost, left over, rebooted or power cycled. -/
theorem Valid.run (valid : pair.Valid) {events : List AutoEvent}
    (stamped : Along (AutoPair.step timeOnAir) Stamped pair events) :
    (events.foldl (AutoPair.step timeOnAir) pair).Valid :=
  stamped.invariant_foldl (fun _ _ valid stamped => valid.step stamped) valid

end AutoPair

end LoraSerial.Device
