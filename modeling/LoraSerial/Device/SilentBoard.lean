import LoraSerial.Device.AutoPair

/-!
Owns the two ways out of a disagreement in 'auto': the turn that both ends hear, and the
passes of a board that hears nothing, which falls back or reboots until it rests on
'medium'.
-/

namespace LoraSerial.Device

/-! ### A turn that both ends hear -/

namespace Node

/-- Without a request the turn ends every probation. -/
theorem Settled.calmTurn {initiator responder : Node} (asking : initiator.Settled)
    (answering : responder.Settled) (follows : responder.ms.target = none)
    (silent : initiator.ms.target = none) (first second : UInt32) :
    let heard : Node := { responder with ms := responder.ms.afterRecv initiator.ms.txCtrl false }
    let told : Node := { initiator with ms := initiator.ms.afterRecv heard.ms.txCtrl true }
    heard.step (.sent first) =
        { responder with ms := { responder.ms with probation := false } } ∧
      told.serviceModeSwitch second =
        { initiator with ms := { initiator.ms with probation := false } } := by
  intro heard told
  have noRequest : initiator.ms.txCtrl = ctrlEncode none false := by
    rw [asking.txCtrl, silent]
  have hears : heard = { responder with ms := { responder.ms with probation := false } } := by
    simp [heard, noRequest, ModeSwitch.afterRecv]
  have noReply : heard.ms.txCtrl = ctrlEncode none false := by
    rw [hears, answering.calm.txCtrl]
    exact congrArg (ctrlEncode · false) follows
  have hearsBack : told = { initiator with ms := { initiator.ms with probation := false } } := by
    simp [told, noReply, ModeSwitch.afterRecv]
  rw [hearsBack, hears]
  exact ⟨answering.calm.send first, asking.calm.service second⟩

/-- A request is granted at once: both ends apply it, on probation. -/
theorem Settled.switchTurn {initiator responder : Node} (asking : initiator.Settled)
    (answering : responder.Settled) (same : initiator.radio = responder.radio) {idx : Nat}
    (asked : initiator.ms.target = some idx) (first second : UInt32) :
    let heard : Node := { responder with ms := responder.ms.afterRecv initiator.ms.txCtrl false }
    let told : Node := { initiator with ms := initiator.ms.afterRecv heard.ms.txCtrl true }
    (told.serviceModeSwitch second).radio = (heard.step (.sent first)).radio ∧
      (told.serviceModeSwitch second).ms.probation = true ∧
      (told.serviceModeSwitch second).ms.target = none := by
  intro heard told
  have small : idx < modeCount := Nat.lt_trans (asking.target idx asked) (by decide)
  have request : initiator.ms.txCtrl = ctrlEncode (some idx) false := by
    rw [asking.txCtrl, asked]
  have elsewhere : some idx ≠ responder.ms.current := by
    rw [answering.mirrors, ← same, ← asking.mirrors]
    exact (asking.asks idx asked).1.symm
  have hears : heard = { responder with ms :=
      { responder.ms with probation := false, oweAck := some idx, armed := some idx } } := by
    simp [heard, request, ModeSwitch.afterRecv, small, elsewhere, answering.armed]
  have reply : heard.ms.txCtrl = ctrlEncode (some idx) true := by
    simp [hears, ModeSwitch.txCtrl]
  have hearsBack : told = { initiator with ms :=
      { initiator.ms with probation := false, apply := some idx, target := none } } := by
    simp [told, reply, ModeSwitch.afterRecv, small, asked]
  rw [hearsBack, hears]
  simp [Node.step, Node.serviceModeSwitch, ModeSwitch.afterSend, ModeSwitch.takeApply, same]

end Node

namespace AutoPair

/-- Both boards run one mode, and the initiator is on probation there. -/
structure Switched (pair : AutoPair) : Prop where
  radio : pair.initiator.radio = pair.responder.radio
  probation : pair.initiator.ms.probation = true
  target : pair.initiator.ms.target = none

variable {timeOnAir : Phy → UInt32} {pair : AutoPair}

theorem Valid.radio_eq (valid : pair.Valid) (same : pair.sameMode = true) :
    pair.initiator.radio = pair.responder.radio :=
  valid.initiator.steady.node.coherent.ext valid.responder.steady.node.coherent (beq_iff_eq.mp same)

theorem turn_heard (same : pair.sameMode = true) (time : Nat) :
    pair.turn time true true =
      { initiator := (pair.initiator.hear (pair.respond time).2 true time).serviced time
        responder := (pair.respond time).1 } := by
  simp [AutoPair.turn, same]

/-- A turn without a request leaves both ends on their mode with nothing pending. -/
theorem Valid.converges (valid : pair.Valid) (same : pair.sameMode = true)
    (silent : pair.initiator.ms.target = none) (time : Nat) :
    (pair.turn time true true).Converged := by
  obtain ⟨responder, initiator⟩ := valid.initiator.steady.node.calmTurn valid.responder.steady.node
    (valid.responder.steady.follows rfl) silent (pair.responder.clock time)
    (pair.initiator.clock time)
  have settled := valid.initiator.steady.node
  have answering := valid.responder.steady.node
  have follows := valid.responder.steady.follows rfl
  rw [turn_heard same]
  refine ⟨?_, ?_, ?_⟩
  · refine (congrArg Node.radio initiator).trans ?_
    exact (valid.radio_eq same).trans (congrArg Node.radio responder).symm
  · refine (congrArg (fun node : Node => node.ms.busy) initiator).trans ?_
    simp [ModeSwitch.busy, silent, settled.armed, settled.applied]
  · refine (congrArg (fun node : Node => node.ms.busy) responder).trans ?_
    simp [ModeSwitch.busy, follows, answering.armed, answering.applied]

/-- A turn with a request brings both ends to the requested mode. -/
theorem Valid.switches (valid : pair.Valid) (same : pair.sameMode = true) {idx : Nat}
    (asked : pair.initiator.ms.target = some idx) (time : Nat) :
    (pair.turn time true true).Switched := by
  have switched := valid.initiator.steady.node.switchTurn valid.responder.steady.node
    (valid.radio_eq same) asked (pair.responder.clock time) (pair.initiator.clock time)
  rw [turn_heard same]
  exact ⟨switched.1, switched.2.1, switched.2.2⟩

theorem Valid.turn_cases (valid : pair.Valid) (same : pair.sameMode = true) (time : Nat) :
    (pair.turn time true true).Converged ∨ (pair.turn time true true).Switched := by
  cases asked : pair.initiator.ms.target with
  | none => exact Or.inl (valid.converges same asked time)
  | some idx => exact Or.inr (valid.switches same asked time)

end AutoPair

/-! ### Passes -/

namespace Watch

variable {timeOnAir : Phy → UInt32} {watch : Watch}

/-- Up to the rendezvous, a pass with no probation run out only notes a re-init. -/
theorem enterPass_running (timeOnAir : Phy → UInt32) (settled : watch.node.Settled)
    {start : UInt32} {pass : SilentPass}
    (running : watch.node.ms.expires (start + UInt32.ofNat pass.polled) = false) :
    ∃ reinit, Watch.enterPass timeOnAir start watch pass =
      ({ watch with lastReinit := reinit } : Watch).maybeRendezvous timeOnAir
        (start + UInt32.ofNat pass.rendezvous) := by
  have polled := settled.polled_running running (start + UInt32.ofNat pass.polled)
  have reinited : ∀ now, ∃ reinit,
      watch.maybeReinitRadio timeOnAir now = { watch with lastReinit := reinit } := by
    intro now
    unfold Watch.maybeReinitRadio
    split
    · exact ⟨watch.lastReinit, rfl⟩
    · split
      · exact ⟨watch.lastReinit, rfl⟩
      · refine ⟨now, ?_⟩
        rw [settled.coherent.reinit]
  obtain ⟨reinit, noted⟩ := reinited (start + UInt32.ofNat pass.reinit)
  refine ⟨reinit, ?_⟩
  unfold Watch.enterPass
  dsimp only
  rw [polled, noted]

/-- A rendezvous that does not move the board leaves its node alone. -/
theorem node_maybeRendezvous {now : UInt32} (stays : watch.moves timeOnAir now = false) :
    (watch.maybeRendezvous timeOnAir now).node = watch.node := by
  unfold Watch.maybeRendezvous
  split
  · rfl
  next allowed =>
    split
    · rfl
    next silent =>
      split
      · rfl
      next rested =>
        have there : ¬watch.node.radio.currentModeIndex ≠ some medium := by
          intro away
          rw [Watch.moves, decide_eq_true (UInt32.not_lt.mp silent),
            decide_eq_true (UInt32.not_lt.mp rested), decide_eq_true away] at stays
          cases adr : watch.adr <;> cases fsk : watch.node.radio.phyFsk <;> simp_all
        exact if_neg there

/-- A board in 'auto' that is away from 'medium' and stays has heard a frame or fallen back
lately. -/
theorem maybeRendezvous_recent (adr : watch.adr = true) {now : UInt32}
    (away : watch.node.radio.currentModeIndex ≠ some medium)
    (stays : watch.moves timeOnAir now = false) :
    watch.maybeRendezvous timeOnAir now = watch ∧
      (now - watch.lastRx < rendezvousMs timeOnAir watch.node.radio ∨
        now - watch.lastRendezvous < rendezvousMs timeOnAir watch.node.radio) := by
  unfold Watch.maybeRendezvous
  rw [if_neg (by simp [adr])]
  split
  next silence => exact ⟨rfl, Or.inl silence⟩
  next silent =>
    split
    next rate => exact ⟨rfl, Or.inr rate⟩
    next rested =>
      rw [Watch.moves, decide_eq_true (UInt32.not_lt.mp silent),
        decide_eq_true (UInt32.not_lt.mp rested), decide_eq_true away] at stays
      simp [adr] at stays

theorem eq_mediumRadio {radio : Radio} (coherent : radio.Coherent)
    (current : radio.currentModeIndex = some medium) : radio = mediumRadio := by
  have here := coherent.restored current radio
  have there := (Radio.coherent_setup ⟨7, 1, 5⟩ ⟨7, 1, 5⟩).restored
    (by decide : mediumRadio.currentModeIndex = some medium) radio
  exact congrArg Prod.snd (here.symm.trans there)

/-- After the rendezvous a board in 'auto' is on 'medium', or it stays because its silence
or its last rendezvous is too short. -/
theorem maybeRendezvous_cases (coherent : watch.node.radio.Coherent) (adr : watch.adr = true)
    (now : UInt32) :
    (watch.maybeRendezvous timeOnAir now).node.radio = mediumRadio ∨
      watch.node.radio ≠ mediumRadio ∧ watch.maybeRendezvous timeOnAir now = watch ∧
        (now - watch.lastRx < rendezvousMs timeOnAir watch.node.radio ∨
          now - watch.lastRendezvous < rendezvousMs timeOnAir watch.node.radio) := by
  cases moves : watch.moves timeOnAir now with
  | true => exact Or.inl (listening_of_moves moves).radio
  | false =>
      by_cases there : watch.node.radio.currentModeIndex = some medium
      · rw [node_maybeRendezvous moves]
        exact Or.inl (eq_mediumRadio coherent there)
      · refine Or.inr ⟨fun same => ?_, maybeRendezvous_recent adr there moves⟩
        exact there (congrArg Radio.currentModeIndex same)

theorem radio_driveAdr (watch : Watch) (decision : AdrAction) :
    (watch.driveAdr decision).node.radio = watch.node.radio := by
  cases decision <;> rfl

end Watch

namespace AutoBoard

variable {timeOnAir : Phy → UInt32} {isInitiator : Bool} {board : AutoBoard}

/-- A pass with no probation run out and no reboot due. -/
theorem pass_running (settled : board.watch.node.Settled) {pass : SilentPass}
    (running : board.ms.expires (board.clock pass.polled) = false)
    (going : (Watch.enterPass timeOnAir board.start board.watch pass).maybeReboot timeOnAir
      (board.clock pass.reboot) = false) :
    ∃ reinit, board.pass timeOnAir pass =
      { board with
        watch := (({ board.watch with lastReinit := reinit } : Watch).maybeRendezvous timeOnAir
          (board.clock pass.rendezvous)).driveAdr (board.decision pass) } := by
  obtain ⟨reinit, entered⟩ := Watch.enterPass_running timeOnAir settled running
  refine ⟨reinit, ?_⟩
  unfold AutoBoard.pass
  dsimp only
  rw [if_neg (by rw [going]; exact Bool.false_ne_true), entered]
  rfl

/-- Less than `limit` since `stamp`, by the board's clock. -/
def Recent (board : AutoBoard) (limit : Nat) (stamp : UInt32) (time : Nat) : Prop :=
  (board.clock time - stamp).toNat < limit

theorem clock_add (board : AutoBoard) {first second : Nat} (order : first ≤ second) :
    board.clock second = board.clock first + UInt32.ofNat (second - first) := by
  unfold AutoBoard.clock
  rw [UInt32.add_assoc, ← UInt32.ofNat_add, Nat.add_sub_cancel' order]

/-- What is recent once is so for no longer than `limit`. -/
theorem Recent.lapses {limit : Nat} {stamp : UInt32} {first second : Nat}
    (recent : board.Recent limit stamp first) (order : first + limit ≤ second)
    (range : second - first + limit ≤ 2 ^ 32) : ¬board.Recent limit stamp second := by
  unfold Recent at recent ⊢
  rw [board.clock_add (by omega : first ≤ second), silence_toNat, Nat.mod_eq_of_lt (by omega)]
  omega

/-- Silence or the last rendezvous is too recent to fall back. -/
def Delayed (board : AutoBoard) (limit time : Nat) : Prop :=
  board.Recent limit board.watch.lastRx time ∨ board.Recent limit board.watch.lastRendezvous time

/-- Two stamps do not delay a board for three timeouts: two of the three times are recent
by one stamp. -/
theorem Delayed.thrice {limit first second third : Nat} (early : board.Delayed limit first)
    (later : board.Delayed limit second) (last : board.Delayed limit third)
    (order : first + limit ≤ second) (onward : second + limit ≤ third)
    (range : third - first + limit ≤ 2 ^ 32) : False := by
  rcases early with early | early <;> rcases later with later | later <;>
    rcases last with last | last
  · exact early.lapses order (by omega) later
  · exact early.lapses order (by omega) later
  · exact early.lapses (by omega) range last
  · exact later.lapses onward (by omega) last
  · exact later.lapses onward (by omega) last
  · exact early.lapses (by omega) range last
  · exact early.lapses order (by omega) later
  · exact early.lapses order (by omega) later

end AutoBoard

/-- `reboot` and `rendezvous` bound the timeouts of every mode, and with the pace of the
loops they are far from the range of the clock. -/
structure Paced (timeOnAir : Phy → UInt32) (reboot rendezvous period : Nat) : Prop where
  reboots : ∀ radio, (rebootMs timeOnAir radio).toNat ≤ reboot
  falls : ∀ radio, (rendezvousMs timeOnAir radio).toNat ≤ rendezvous
  range : 2 * (reboot + 2 * rendezvous + 9 * period) ≤ 2 ^ 32

/-- Whatever the times on air, with passes and turns up to a day apart. -/
theorem paced_of_period (timeOnAir : Phy → UInt32) {period : Nat} (daily : period ≤ 86400000) :
    Paced timeOnAir (12 * 2 ^ 25) (5 * 2 ^ 25) period where
  reboots := by
    intro radio
    have short : (retransmitMs timeOnAir radio).toNat < 2 ^ 25 := retransmitMs_lt _
    rw [rebootMs, recoveryMs_toNat timeOnAir radio (by decide)]
    change max 45000 (12 * (retransmitMs timeOnAir radio).toNat) ≤ 12 * 2 ^ 25
    omega
  falls := by
    intro radio
    have short : (retransmitMs timeOnAir radio).toNat < 2 ^ 25 := retransmitMs_lt _
    rw [rendezvousMs, recoveryMs_toNat timeOnAir radio (by decide)]
    change max 9000 (5 * (retransmitMs timeOnAir radio).toNat) ≤ 5 * 2 ^ 25
    omega
  range := by omega

/-- A pass in its order of steps, not long after the last one. -/
structure InPace (period seen : Nat) (pass : SilentPass) : Prop where
  polled : seen ≤ pass.polled
  reinit : pass.polled ≤ pass.reinit
  rendezvous : pass.reinit ≤ pass.rendezvous
  reboot : pass.rendezvous ≤ pass.reboot
  soon : pass.reboot ≤ seen + period

/-- How a silent board gets to 'medium' after `begun`: linked, it reboots; not linked,
its silence and its rendezvous clock both lapse. -/
inductive Stage (reboot rendezvous period begun : Nat) (board : AutoBoard) (seen : Nat) : Prop
  | linked (link : board.watch.lastRx ≠ 0) (early : seen ≤ begun)
  | silent {first : Nat} (link : board.watch.lastRx ≠ 0) (after : begun ≤ first)
      (early : first ≤ begun + period) (recent : board.Recent reboot board.watch.lastRx first)
      (bound : seen ≤ first + reboot)
  | alone (unlinked : board.watch.lastRx = 0) (bound : seen ≤ begun + reboot + 2 * period)
  | waiting {first : Nat} (unlinked : board.watch.lastRx = 0) (after : begun ≤ first)
      (early : first ≤ begun + reboot + 3 * period)
      (delayed : board.Delayed rendezvous first) (bound : seen ≤ first + rendezvous + period)
  | waitingOn {first second : Nat} (unlinked : board.watch.lastRx = 0) (after : begun ≤ first)
      (order : first + rendezvous ≤ second)
      (early : second ≤ begun + reboot + rendezvous + 5 * period)
      (delayed : board.Delayed rendezvous first) (still : board.Delayed rendezvous second)
      (bound : seen ≤ second + rendezvous + period)
  | rested (unlinked : board.watch.lastRx = 0) (radio : board.radio = Watch.mediumRadio)

namespace AutoBoard

/-- The board is on 'medium' and will not reboot. -/
def Rested (board : AutoBoard) : Prop :=
  board.watch.lastRx = 0 ∧ board.radio = Watch.mediumRadio

variable {timeOnAir : Phy → UInt32} {isInitiator : Bool} {board : AutoBoard}
  {reboot rendezvous period begun seen : Nat}

theorem recent_congr {next : AutoBoard} (start : next.start = board.start) (limit : Nat)
    (stamp : UInt32) (time : Nat) :
    next.Recent limit stamp time ↔ board.Recent limit stamp time := by
  rw [AutoBoard.Recent, AutoBoard.Recent, AutoBoard.clock, AutoBoard.clock, start]

/-- A board that has been linked reboots, or has heard a frame lately. -/
theorem linked_pass (paced : Paced timeOnAir reboot rendezvous period)
    (link : board.watch.lastRx ≠ 0) (pass : SilentPass) :
    (board.pass timeOnAir pass).watch.lastRx = 0 ∨
      (board.pass timeOnAir pass).watch.lastRx = board.watch.lastRx ∧
        (board.pass timeOnAir pass).start = board.start ∧
        board.Recent reboot board.watch.lastRx pass.reboot := by
  unfold AutoBoard.pass
  dsimp only
  split
  · exact Or.inl rfl
  next going =>
    have kept := (Watch.enterPass_keeps timeOnAir board.start board.watch pass).2
    refine Or.inr ⟨(Watch.driveAdr_keeps _ _).2.trans kept, rfl, ?_⟩
    rw [Watch.maybeReboot, kept] at going
    simp only [Bool.and_eq_true, decide_eq_true_eq, ne_eq, link, not_false_eq_true, true_and,
      UInt32.not_le] at going
    exact Nat.lt_of_lt_of_le (UInt32.lt_iff_toNat_lt.mp going) (paced.reboots _)

/-- Less than the rendezvous timeout of a mode. -/
theorem recent_of_lt (paced : Paced timeOnAir reboot rendezvous period) {radio : Radio}
    {stamp : UInt32} {time : Nat}
    (early : board.start + UInt32.ofNat time - stamp < rendezvousMs timeOnAir radio) :
    board.Recent rendezvous stamp time :=
  Nat.lt_of_lt_of_le (UInt32.lt_iff_toNat_lt.mp early) (paced.falls radio)

/-- A board that has not been linked rests on 'medium', or has booted or fallen back
lately. -/
theorem Valid.alone_pass (valid : board.Valid isInitiator)
    (paced : Paced timeOnAir reboot rendezvous period) (unlinked : board.watch.lastRx = 0)
    (pass : SilentPass) :
    (board.pass timeOnAir pass).watch.lastRx = 0 ∧
      ((board.pass timeOnAir pass).radio = Watch.mediumRadio ∨
        board.radio ≠ Watch.mediumRadio ∧
          (∀ {time}, (board.pass timeOnAir pass).Delayed rendezvous time ↔
            board.Delayed rendezvous time) ∧
          board.Delayed rendezvous pass.rendezvous) := by
  have free : board.ms.probation = false := by
    cases probation : board.ms.probation with
    | false => rfl
    | true => exact absurd unlinked (valid.steady.linked probation)
  have running : board.ms.expires (board.clock pass.polled) = false := by
    simp [ModeSwitch.expires, free]
  have kept := (Watch.enterPass_keeps timeOnAir board.start board.watch pass).2
  have going : (Watch.enterPass timeOnAir board.start board.watch pass).maybeReboot timeOnAir
      (board.clock pass.reboot) = false := by
    simp [Watch.maybeReboot, kept, unlinked]
  obtain ⟨reinit, passed⟩ := board.pass_running valid.steady.node running going
  rw [passed]
  generalize noted : ({ board.watch with lastReinit := reinit } : Watch) = watch
  obtain ⟨node, adr, lastRx, lastRendezvous⟩ : watch.node = board.watch.node ∧ watch.adr = true ∧
      watch.lastRx = board.watch.lastRx ∧ watch.lastRendezvous = board.watch.lastRendezvous := by
    rw [← noted]
    exact ⟨rfl, valid.adr, rfl, rfl⟩
  have silent : ((watch.maybeRendezvous timeOnAir (board.clock pass.rendezvous)).driveAdr
      (board.decision pass)).lastRx = 0 := by
    rw [(Watch.driveAdr_keeps _ _).2, (Watch.maybeRendezvous_keeps _ _ _).2, lastRx, unlinked]
  have coherent : watch.node.radio.Coherent := node ▸ valid.steady.node.coherent
  refine ⟨silent, ?_⟩
  rw [AutoBoard.radio, Watch.radio_driveAdr]
  rcases Watch.maybeRendezvous_cases coherent adr (board.clock pass.rendezvous) with
    rests | ⟨away, stays, recent⟩
  · exact Or.inl rests
  · have kept : (watch.driveAdr (board.decision pass)).lastRendezvous =
        board.watch.lastRendezvous := by
      cases board.decision pass <;> exact lastRendezvous
    rw [stays]
    rw [lastRx, lastRendezvous] at recent
    rw [node] at away
    refine Or.inr ⟨away, ?_, recent.imp (recent_of_lt paced) (recent_of_lt paced)⟩
    intro time
    rw [Delayed, kept, (Watch.driveAdr_keeps _ _).2, lastRx]
    exact Iff.rfl

/-- A board at rest stays on 'medium'. -/
theorem Valid.rested_pass (valid : board.Valid isInitiator)
    (paced : Paced timeOnAir reboot rendezvous period) (rested : board.Rested)
    (pass : SilentPass) : (board.pass timeOnAir pass).radio = Watch.mediumRadio := by
  rcases (valid.alone_pass paced rested.1 pass).2 with rests | ⟨away, -⟩
  · exact rests
  · exact absurd rested.2 away

/-- A silent board gets on with each pass. -/
theorem Valid.stage_pass (valid : board.Valid isInitiator)
    (paced : Paced timeOnAir reboot rendezvous period)
    (stage : Stage reboot rendezvous period begun board seen) (begins : begun ≤ seen)
    {pass : SilentPass} (inPace : InPace period seen pass) :
    Stage reboot rendezvous period begun (board.pass timeOnAir pass) pass.reboot := by
  obtain ⟨polled, reinit, fall, last, soon⟩ := inPace
  have range := paced.range
  cases stage with
  | linked link early =>
      rcases linked_pass paced link pass with unlinked | ⟨lastRx, start, recent⟩
      · exact .alone unlinked (by omega)
      · refine .silent (by rw [lastRx]; exact link) (by omega : begun ≤ pass.reboot) (by omega) ?_
          (by omega)
        rw [recent_congr start, lastRx]
        exact recent
  | @silent first link after early recent bound =>
      rcases linked_pass paced link pass with unlinked | ⟨lastRx, start, still⟩
      · exact .alone unlinked (by omega)
      · refine .silent (by rw [lastRx]; exact link) after early ?_ ?_
        · rw [recent_congr start, lastRx]
          exact recent
        · by_contra late
          exact recent.lapses (by omega) (by omega) still
  | alone unlinked bound =>
      obtain ⟨silent, rests | ⟨-, waits, delayed⟩⟩ := valid.alone_pass paced unlinked pass
      · exact .rested silent rests
      · exact .waiting silent (by omega : begun ≤ pass.rendezvous) (by omega) (waits.mpr delayed)
          (by omega)
  | @waiting first unlinked after early delayed bound =>
      obtain ⟨silent, rests | ⟨-, waits, still⟩⟩ := valid.alone_pass paced unlinked pass
      · exact .rested silent rests
      · by_cases order : first + rendezvous ≤ pass.rendezvous
        · exact .waitingOn silent after order (by omega) (waits.mpr delayed) (waits.mpr still)
            (by omega)
        · exact .waiting silent after early (waits.mpr delayed) (by omega)
  | @waitingOn first second unlinked after order early delayed still bound =>
      obtain ⟨silent, rests | ⟨-, waits, again⟩⟩ := valid.alone_pass paced unlinked pass
      · exact .rested silent rests
      · by_cases onward : second + rendezvous ≤ pass.rendezvous
        · exact (delayed.thrice still again order onward (by omega)).elim
        · exact .waitingOn silent after order early (waits.mpr delayed) (waits.mpr still) (by omega)
  | rested unlinked radio =>
      exact .rested (valid.alone_pass paced unlinked pass).1
        (valid.rested_pass paced ⟨unlinked, radio⟩ pass)

/-- A board that does not rest yet has been seen lately. -/
theorem rested_or (stage : Stage reboot rendezvous period begun board seen) :
    board.Rested ∨ seen ≤ begun + reboot + 2 * rendezvous + 6 * period := by
  cases stage with
  | linked link early => exact Or.inr (by omega)
  | silent link after early recent bound => exact Or.inr (by omega)
  | alone unlinked bound => exact Or.inr (by omega)
  | waiting unlinked after early delayed bound => exact Or.inr (by omega)
  | waitingOn unlinked after order early delayed still bound => exact Or.inr (by omega)
  | rested unlinked radio => exact Or.inl ⟨unlinked, radio⟩

/-! ### Just after an exchange -/

/-- Nothing has been heard or applied since the exchange at `time`. -/
structure Fresh (board : AutoBoard) (time : Nat) : Prop where
  lastRx : board.watch.lastRx = board.clock time
  probation : board.ms.probation = true → board.ms.probationStart = board.clock time

theorem clock_sub (board : AutoBoard) {first second : Nat} (order : first ≤ second)
    (range : second - first < 2 ^ 32) :
    (board.clock second - board.clock first).toNat = second - first := by
  rw [board.clock_add order, silence_toNat, UInt32.sub_self, UInt32.toNat_zero, Nat.zero_add,
    Nat.mod_eq_of_lt range]

/-- No timer is due within the probation after the exchange. -/
theorem Fresh.patient (timeOnAir : Phy → UInt32) {met : Nat} (fresh : board.Fresh met)
    (settled : board.watch.node.Settled) {pass : SilentPass} (inPace : InPace period seen pass)
    (order : met ≤ pass.polled)
    (soon : pass.reboot < met + probationMs.toNat) : board.timesOut timeOnAir pass = false := by
  obtain ⟨-, reinit, fall, last, -⟩ := inPace
  have limit : probationMs.toNat = 4000 := rfl
  have below : ∀ {time : Nat} {limit : UInt32}, met ≤ time → time ≤ pass.reboot →
      probationMs ≤ limit → ¬limit ≤ board.clock time - board.clock met := by
    intro time limit after early long due
    have long := UInt32.le_iff_toNat_le.mp long
    have due := UInt32.le_iff_toNat_le.mp due
    rw [board.clock_sub after (by omega)] at due
    omega
  have falls : probationMs ≤ rendezvousMs timeOnAir board.watch.node.radio :=
    UInt32.le_trans (by decide) (le_recoveryMs timeOnAir board.watch.node.radio 9000 5)
  have reboots : probationMs ≤ rebootMs timeOnAir board.watch.node.radio :=
    UInt32.le_trans (by decide) (le_recoveryMs timeOnAir board.watch.node.radio 45000 12)
  have running : board.ms.expires (board.clock pass.polled) = false := by
    rw [ModeSwitch.expires, settled.limit]
    cases probation : board.ms.probation with
    | false => rfl
    | true =>
        rw [fresh.probation probation, Bool.true_and, decide_eq_false_iff_not]
        exact below order (by omega) (UInt32.le_refl _)
  have stays : board.watch.moves timeOnAir (board.clock pass.rendezvous) = false := by
    rw [Watch.moves, fresh.lastRx,
      decide_eq_false (below (by omega : met ≤ pass.rendezvous) last falls)]
    simp
  have lasting : board.watch.maybeReboot timeOnAir (board.clock pass.reboot) = false := by
    rw [Watch.maybeReboot, fresh.lastRx,
      decide_eq_false (below (by omega : met ≤ pass.reboot) (Nat.le_refl _) reboots),
      Bool.and_false]
  simp only [AutoBoard.timesOut, running, stays, lasting, Bool.or_self]

/-- A pass in which nothing is due only drives the data rate. -/
theorem pass_patient (settled : board.watch.node.Settled) {pass : SilentPass}
    (patient : board.timesOut timeOnAir pass = false) :
    ∃ watch : Watch, watch.node = board.watch.node ∧ watch.lastRx = board.watch.lastRx ∧
      board.pass timeOnAir pass = { board with watch := watch.driveAdr (board.decision pass) } := by
  simp only [AutoBoard.timesOut, Bool.or_eq_false_iff] at patient
  obtain ⟨⟨running, stays⟩, lasting⟩ := patient
  obtain ⟨reinit, entered⟩ := Watch.enterPass_running timeOnAir settled running
  have node : (Watch.enterPass timeOnAir board.start board.watch pass).node = board.watch.node := by
    rw [entered]
    exact Watch.node_maybeRendezvous stays
  have lastRx := (Watch.enterPass_keeps timeOnAir board.start board.watch pass).2
  have going : (Watch.enterPass timeOnAir board.start board.watch pass).maybeReboot timeOnAir
      (board.clock pass.reboot) = false := by
    rw [← lasting, Watch.maybeReboot, Watch.maybeReboot, node, lastRx]
  refine ⟨_, node, lastRx, ?_⟩
  unfold AutoBoard.pass
  dsimp only
  rw [if_neg (by rw [going]; exact Bool.false_ne_true)]

theorem driveAdr_probation (watch : Watch) (decision : AdrAction) :
    (watch.driveAdr decision).node.ms.probation = watch.node.ms.probation ∧
      (watch.driveAdr decision).node.ms.probationStart = watch.node.ms.probationStart := by
  cases decision with
  | none | abort => exact ⟨rfl, rfl⟩
  | request idx =>
      refine ⟨ModeSwitch.request_probation _ _, ?_⟩
      simp only [Watch.driveAdr, ModeSwitch.request]
      split <;> rfl

/-- On probation the data rate control requests nothing. -/
theorem driveAdr_target {watch : Watch} (probation : watch.node.ms.probation = true)
    (silent : watch.node.ms.target = none) (decision : AdrAction) :
    (watch.driveAdr decision).node.ms.target = none := by
  cases decision with
  | none => exact silent
  | abort => rfl
  | request idx =>
      have busy : watch.node.ms.busy = true := by simp [ModeSwitch.busy, probation]
      simp only [Watch.driveAdr, ModeSwitch.request, busy, or_true, if_true]
      exact silent

/-- The passes before the next exchange keep the mode and the probation. -/
theorem Fresh.pass (timeOnAir : Phy → UInt32) {met : Nat} (fresh : board.Fresh met)
    (settled : board.watch.node.Settled) {pass : SilentPass} (inPace : InPace period seen pass)
    (order : met ≤ pass.polled)
    (soon : pass.reboot < met + probationMs.toNat) :
    (board.pass timeOnAir pass).Fresh met ∧ (board.pass timeOnAir pass).radio = board.radio ∧
      (board.pass timeOnAir pass).ms.probation = board.ms.probation ∧
      (board.ms.probation = true → board.ms.target = none →
        (board.pass timeOnAir pass).ms.target = none) := by
  obtain ⟨watch, node, lastRx, passed⟩ :=
    pass_patient settled (fresh.patient timeOnAir settled inPace order soon)
  obtain ⟨probation, probationStart⟩ := driveAdr_probation watch (board.decision pass)
  rw [passed]
  rw [node] at probation probationStart
  refine ⟨⟨?_, ?_⟩, ?_, probation, ?_⟩
  · exact (Watch.driveAdr_keeps _ _).2.trans (lastRx.trans fresh.lastRx)
  · intro running
    exact probationStart.trans (fresh.probation (probation.symm.trans running))
  · exact (Watch.radio_driveAdr _ _).trans (congrArg Node.radio node)
  · intro running silent
    exact driveAdr_target (node ▸ running) (node ▸ silent) _

/-- A service puts a board on probation from then on. -/
theorem probationStart_serviced {node : Node} (free : node.ms.probation = false) {taken : UInt32}
    (probation : (node.serviceModeSwitch taken).ms.probation = true) :
    (node.serviceModeSwitch taken).ms.probationStart = taken := by
  cases pending : node.ms.apply with
  | none =>
      simp [Node.serviceModeSwitch, ModeSwitch.takeApply, pending, free] at probation
  | some idx => simp [Node.serviceModeSwitch, ModeSwitch.takeApply, pending]

theorem fresh_initiator (board : AutoBoard) (nib : UInt8) (time : Nat) :
    ((board.hear nib true time).serviced time).Fresh time where
  lastRx := rfl
  probation := probationStart_serviced (ModeSwitch.afterRecv_probation board.ms nib true)

theorem fresh_responder (board : AutoBoard) (nib : UInt8) (time : Nat) :
    ((board.hear nib false time).sent time).Fresh time where
  lastRx := rfl
  probation := by
    refine probationStart_serviced ?_
    exact (ModeSwitch.afterSend_probation _).trans
      (ModeSwitch.afterRecv_probation board.ms nib false)

end AutoBoard

end LoraSerial.Device
