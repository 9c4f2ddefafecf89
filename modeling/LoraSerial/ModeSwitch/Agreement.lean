import LoraSerial.ModeSwitch.Engine
import Mathlib.Tactic.ByContra

/-!
Owns the agreement of two ends about the mode: every interleaving of the calls an
initiator and a responder make in their turn loops, any losses, any requests and
aborts, any clocks. Frames pass only between ends on one mode. Reboots and the
dead-link rendezvous are not part of it.
-/

namespace LoraSerial.ModeSwitch

/-! ### Two ends and a half-duplex channel -/

/-- Where the initiator is in its loop: before its turn, listening for the reply,
or before it services the switch. -/
inductive InitiatorTurn where
  | idle | waiting | serving
deriving DecidableEq, Repr

/-- Where the responder is in its loop: listening, after hearing a turn, after its
reply, or before it services the switch. -/
inductive ResponderTurn where
  | idle | heard | sent | serving
deriving DecidableEq, Repr

/-- `reply` is a reply on the air that the initiator will hear. -/
structure Pair where
  initiator : ModeSwitch
  responder : ModeSwitch
  initiatorTurn : InitiatorTurn
  responderTurn : ResponderTurn
  reply : Option UInt8

inductive Action where
  | request (mode : Fin modeCount)
  | abort
  | initiatorTick (now : UInt32)
  | initiatorSend (lost : Bool)
  | initiatorReceive
  | initiatorService (now : UInt32)
  | responderTick (now : UInt32)
  | responderReply (lost : Bool)
  | responderSent
  | responderService (now : UInt32)

namespace Pair

def start (initiatorMs responderMs : UInt32) (mode : Fin modeCount) : Pair where
  initiator := begin initiatorMs (some mode)
  responder := begin responderMs (some mode)
  initiatorTurn := .idle
  responderTurn := .idle
  reply := none

/-- The initiator's frame reaches a responder that listens on the same mode. -/
def initiatorSend (pair : Pair) (lost : Bool) : Pair :=
  if ¬lost ∧ pair.responderTurn = .idle ∧ pair.initiator.current = pair.responder.current then
    { pair with
      responder := pair.responder.afterRecv pair.initiator.txCtrl false
      initiatorTurn := .waiting
      responderTurn := .heard }
  else { pair with initiatorTurn := .waiting }

/-- The reply reaches an initiator that listens on the same mode. -/
def responderReply (pair : Pair) (lost : Bool) : Pair :=
  if ¬lost ∧ pair.initiatorTurn = .waiting ∧
      pair.initiator.current = pair.responder.current then
    { pair with responderTurn := .sent, reply := some pair.responder.txCtrl }
  else { pair with responderTurn := .sent }

/-- The initiator stops listening, with or without a reply. -/
def initiatorReceive (pair : Pair) : Pair :=
  { pair with
    initiator :=
      match pair.reply with
      | none => pair.initiator
      | some nib => pair.initiator.afterRecv nib true
    initiatorTurn := .serving
    reply := none }

/-- One step; an action out of turn does nothing. -/
def step (pair : Pair) : Action → Pair
  | .request mode => { pair with initiator := pair.initiator.request mode }
  | .abort => { pair with initiator := pair.initiator.abort }
  | .initiatorTick now =>
      if pair.initiatorTurn = .idle then { pair with initiator := pair.initiator.tick now }
      else pair
  | .initiatorSend lost => if pair.initiatorTurn = .idle then pair.initiatorSend lost else pair
  | .initiatorReceive => if pair.initiatorTurn = .waiting then pair.initiatorReceive else pair
  | .initiatorService now =>
      if pair.initiatorTurn = .serving then
        { pair with initiator := pair.initiator.service now, initiatorTurn := .idle }
      else pair
  | .responderTick now =>
      if pair.responderTurn = .idle then { pair with responder := pair.responder.tick now }
      else pair
  | .responderReply lost => if pair.responderTurn = .heard then pair.responderReply lost else pair
  | .responderSent =>
      if pair.responderTurn = .sent then
        { pair with responder := pair.responder.afterSend, responderTurn := .serving }
      else pair
  | .responderService now =>
      if pair.responderTurn = .serving then
        { pair with responder := pair.responder.service now, responderTurn := .idle }
      else pair

def run (pair : Pair) (actions : List Action) : Pair :=
  actions.foldl step pair

/-! ### The joint state -/

/-- The initiator while the responder leaves `mode` for `next`: it still stays, it
has the ACK, or it is on probation. -/
inductive Follows (mode next : Nat) (pair : Pair) : Prop where
  | stays (solid : pair.initiator.Solid mode)
  | acknowledged (pending : pair.initiator.Pending mode next)
      (turn : pair.initiatorTurn = .serving)
  | switched (trial : pair.initiator.Trial mode next)

/-- At most the ACK for `next` is on the air, and only before the initiator acts on
it. -/
def Acknowledging (mode next : Nat) (pair : Pair) : Prop :=
  pair.reply = none ∨
    (pair.reply = some (ctrlEncode (some next) true) ∧ pair.initiator.Solid mode)

/-- At most a reply without control bits is on the air, heard on the responder's
mode. -/
def Confirming (pair : Pair) : Prop :=
  pair.reply = none ∨
    (pair.reply = some 0 ∧ pair.initiator.current = pair.responder.current)

/-- The joint states of the two ends. -/
inductive Joint (pair : Pair) : Prop where
  /-- Both are settled on one mode. -/
  | settled (mode : Nat) (initiator : pair.initiator.Solid mode)
      (responder : pair.responder.Solid mode) (noRequest : pair.responder.target = none)
      (reply : pair.Confirming)
  /-- The responder has heard a request. -/
  | asked (mode next : Nat) (differ : mode ≠ next) (valid : next < modeCount)
      (initiator : pair.initiator.Solid mode) (responder : pair.responder.Armed mode next)
      (turn : pair.responderTurn = .heard) (reply : pair.reply = none)
  /-- The responder has sent its ACK. -/
  | answered (mode next : Nat) (differ : mode ≠ next) (valid : next < modeCount)
      (initiator : pair.Follows mode next) (responder : pair.responder.Armed mode next)
      (turn : pair.responderTurn = .sent) (reply : pair.Acknowledging mode next)
  /-- The responder is about to switch. -/
  | switching (mode next : Nat) (differ : mode ≠ next) (valid : next < modeCount)
      (initiator : pair.Follows mode next) (responder : pair.responder.Pending mode next)
      (turn : pair.responderTurn = .serving) (reply : pair.Acknowledging mode next)
  /-- The responder is on probation. -/
  | moved (mode next : Nat) (differ : mode ≠ next) (valid : next < modeCount)
      (initiator : pair.Follows mode next) (responder : pair.responder.Trial mode next)
      (turn : pair.responderTurn = .idle) (reply : pair.Acknowledging mode next)
  /-- The responder has heard the initiator again, the initiator not yet the
  responder. -/
  | confirmed (mode other : Nat) (differ : mode ≠ other)
      (initiator : pair.initiator.Trial mode other) (responder : pair.responder.Solid mode)
      (noRequest : pair.responder.target = none) (reply : pair.Confirming)

/-- A joint state, with a reply on the air only while the initiator listens. -/
structure Coherent (pair : Pair) : Prop where
  joint : pair.Joint
  listens : pair.reply ≠ none → pair.initiatorTurn = .waiting

theorem coherent_start (initiatorMs responderMs : UInt32) (mode : Fin modeCount) :
    (start initiatorMs responderMs mode).Coherent where
  joint := .settled mode (begin_solid _ _) (begin_solid _ _) rfl (Or.inl rfl)
  listens := fun absent => absurd rfl absent

variable {pair : Pair}

/-- Nothing is on the air to an initiator that does not listen. -/
theorem Coherent.no_reply (coherent : pair.Coherent) {turn : InitiatorTurn}
    (elsewhere : pair.initiatorTurn = turn) (deaf : turn ≠ .waiting) : pair.reply = none := by
  by_contra waits
  exact deaf (elsewhere.symm.trans (coherent.listens waits))

/-! ### Steps of the initiator alone -/

/-- The initiator changes, but stays settled, about to switch or on probation as it
was. -/
theorem Joint.of_initiator (joint : pair.Joint) {initiator : ModeSwitch}
    (solid : ∀ mode, pair.initiator.Solid mode → initiator.Solid mode)
    (pending : ∀ mode next, pair.initiatorTurn = .serving →
      pair.initiator.Pending mode next → initiator.Pending mode next)
    (trial : ∀ mode other, mode ≠ other →
      pair.initiator.Trial mode other → initiator.Trial mode other)
    (current : pair.reply ≠ none → initiator.current = pair.initiator.current) :
    ({ pair with initiator := initiator } : Pair).Joint := by
  have follows : ∀ {mode next}, mode ≠ next → pair.Follows mode next →
      ({ pair with initiator := initiator } : Pair).Follows mode next := by
    intro mode next differ old
    cases old with
    | stays old => exact .stays (solid mode old)
    | acknowledged old turn => exact .acknowledged (pending mode next turn old) turn
    | switched old => exact .switched (trial mode next differ old)
  have acknowledging : ∀ {mode next}, pair.Acknowledging mode next →
      ({ pair with initiator := initiator } : Pair).Acknowledging mode next :=
    fun {mode next} old => old.imp_right fun ⟨reply, stays⟩ => ⟨reply, solid mode stays⟩
  have confirming : pair.Confirming → ({ pair with initiator := initiator } : Pair).Confirming :=
    fun old => old.imp_right fun ⟨reply, same⟩ =>
      ⟨reply, (current (by simp [reply])).trans same⟩
  cases joint with
  | settled mode old responder noRequest reply =>
      exact .settled mode (solid mode old) responder noRequest (confirming reply)
  | asked mode next differ valid old responder turn reply =>
      exact .asked mode next differ valid (solid mode old) responder turn reply
  | answered mode next differ valid old responder turn reply =>
      exact .answered mode next differ valid (follows differ old) responder turn
        (acknowledging reply)
  | switching mode next differ valid old responder turn reply =>
      exact .switching mode next differ valid (follows differ old) responder turn
        (acknowledging reply)
  | moved mode next differ valid old responder turn reply =>
      exact .moved mode next differ valid (follows differ old) responder turn
        (acknowledging reply)
  | confirmed mode other differ old responder noRequest reply =>
      exact .confirmed mode other differ (trial mode other differ old) responder noRequest
        (confirming reply)

theorem Coherent.request (coherent : pair.Coherent) (mode : Fin modeCount) :
    (pair.step (.request mode)).Coherent where
  joint := coherent.joint.of_initiator
    (fun _ solid => solid.request_call mode.isLt)
    (fun _ _ _ pending => by rw [pending.request]; exact pending)
    (fun _ _ _ trial => by rw [trial.request]; exact trial)
    (fun _ => by unfold ModeSwitch.request; split <;> rfl)
  listens := coherent.listens

theorem Coherent.abort (coherent : pair.Coherent) : (pair.step .abort).Coherent where
  joint := coherent.joint.of_initiator (fun _ solid => solid.abort) (fun _ _ _ pending => pending.abort)
    (fun _ _ _ trial => trial.abort) (fun _ => rfl)
  listens := coherent.listens

theorem Coherent.initiatorTick (coherent : pair.Coherent) (now : UInt32) :
    (pair.step (.initiatorTick now)).Coherent := by
  simp only [step]
  split
  next idle =>
    refine ⟨coherent.joint.of_initiator ?_ ?_ ?_ ?_, coherent.listens⟩
    · exact fun _ solid => by rw [solid.tick]; exact solid
    · exact fun _ _ serving => by rw [idle] at serving; cases serving
    · exact fun _ _ differ trial => trial.tick differ now
    · exact fun waits => absurd (coherent.no_reply idle nofun) waits
  · exact coherent

/-! ### Frames of the initiator -/

/-- The initiator's turn moves on; a reply stays on the air or is gone. -/
theorem Joint.of_initiatorTurn (joint : pair.Joint) {turn : InitiatorTurn} {reply : Option UInt8}
    (acting : pair.initiatorTurn = .serving → turn = .serving)
    (kept : reply = none ∨ reply = pair.reply) :
    ({ pair with initiatorTurn := turn, reply := reply } : Pair).Joint := by
  have follows : ∀ {mode next}, pair.Follows mode next →
      ({ pair with initiatorTurn := turn, reply := reply } : Pair).Follows mode next := by
    intro mode next old
    cases old with
    | stays solid => exact .stays solid
    | acknowledged pending serving => exact .acknowledged pending (acting serving)
    | switched trial => exact .switched trial
  have air : ∀ {sent : UInt8} {holds : Prop}, (pair.reply = none ∨ (pair.reply = some sent ∧ holds)) →
      reply = none ∨ (reply = some sent ∧ holds) := by
    intro sent holds old
    rcases kept with gone | same
    · exact Or.inl gone
    · exact same ▸ old
  cases joint with
  | settled mode initiator responder noRequest old =>
      exact .settled mode initiator responder noRequest (air old)
  | asked mode next differ valid initiator responder heard silent =>
      exact .asked mode next differ valid initiator responder heard
        (kept.elim id fun same => same.trans silent)
  | answered mode next differ valid initiator responder sent old =>
      exact .answered mode next differ valid (follows initiator) responder sent (air old)
  | switching mode next differ valid initiator responder serving old =>
      exact .switching mode next differ valid (follows initiator) responder serving (air old)
  | moved mode next differ valid initiator responder idle old =>
      exact .moved mode next differ valid (follows initiator) responder idle (air old)
  | confirmed mode other differ initiator responder noRequest old =>
      exact .confirmed mode other differ initiator responder noRequest (air old)

/-- A settled initiator is heard by a responder on its mode that has nothing
armed. -/
theorem joint_of_heard {mode : Nat} {heard : Pair} (initiator : heard.initiator.Solid mode)
    {before : ModeSwitch} (current : before.current = mode) (armed : before.armed = none)
    (apply : before.apply = none) (target : before.target = none)
    (silent : (before.afterRecv 0 false).Solid mode ∧ (before.afterRecv 0 false).target = none)
    (responder : heard.responder = before.afterRecv heard.initiator.txCtrl false)
    (turn : heard.responderTurn = .heard) (reply : heard.reply = none) : heard.Joint := by
  rcases initiator.txCtrl_cases with ⟨-, quiet⟩ | ⟨next, -, other, valid, asking⟩
  · rw [quiet] at responder
    exact .settled mode initiator (responder ▸ silent.1) (responder ▸ silent.2) (Or.inl reply)
  · rw [asking] at responder
    have armed := armed_of_request armed apply target current valid other
    rw [← responder] at armed
    exact .asked mode next other.symm valid initiator armed turn reply

theorem Coherent.initiatorSend (coherent : pair.Coherent) (lost : Bool) :
    (pair.step (.initiatorSend lost)).Coherent := by
  simp only [step]
  split
  next idle =>
    have silence := coherent.no_reply idle nofun
    unfold Pair.initiatorSend
    split
    next hears =>
      obtain ⟨-, listening, same⟩ := hears
      refine ⟨?_, fun _ => rfl⟩
      have busy : ∀ turn, pair.responderTurn = turn → turn = .idle := fun turn at_ =>
        at_.symm.trans listening
      cases coherent.joint with
      | settled mode initiator responder noRequest =>
          exact joint_of_heard initiator responder.current responder.armed responder.apply
            noRequest (by rw [responder.heard]; exact ⟨responder, noRequest⟩) rfl rfl silence
      | asked _ _ _ _ _ _ turn | answered _ _ _ _ _ _ turn | switching _ _ _ _ _ _ turn =>
          cases busy _ turn
      | moved mode next differ valid initiator responder =>
          cases initiator with
          | stays solid =>
              have here := same.symm.trans solid.current
              exact joint_of_heard solid here responder.armed responder.apply responder.target
                (responder.heard here false) rfl rfl silence
          | acknowledged pending turn =>
              rw [idle] at turn
              cases turn
          | switched trial =>
              rcases trial.modes with ⟨current, -⟩ | ⟨current, -⟩
              · have heard := responder.heard (same.symm.trans current) false
                rw [← trial.txCtrl] at heard
                exact .confirmed mode next differ trial heard.1 heard.2 (Or.inl silence)
              · have heard := responder.heard (same.symm.trans current) false
                rw [← trial.txCtrl] at heard
                exact .confirmed next mode differ.symm
                  { trial with modes := trial.modes.symm } heard.1 heard.2 (Or.inl silence)
      | confirmed mode other differ initiator responder noRequest =>
          have heard := responder.heard false
          rw [← initiator.txCtrl] at heard
          exact .confirmed mode other differ initiator (heard.symm ▸ responder)
            (heard.symm ▸ noRequest) (Or.inl silence)
    · have idle : pair.initiatorTurn ≠ .serving := by rw [idle]; nofun
      exact ⟨coherent.joint.of_initiatorTurn (fun serving => absurd serving idle) (Or.inr rfl),
        fun _ => rfl⟩
  · exact coherent

/-! ### Frames of the responder -/

/-- The initiator hears the ACK, or a reply without control bits. -/
theorem Joint.received (joint : pair.Joint) {nib : UInt8} (answer : pair.reply = some nib) :
    ({ pair with
      initiator := pair.initiator.afterRecv nib true
      initiatorTurn := .serving
      reply := none } : Pair).Joint := by
  have acknowledged : ∀ {mode next}, next < modeCount → pair.Acknowledging mode next →
      ({ pair with
        initiator := pair.initiator.afterRecv nib true
        initiatorTurn := .serving
        reply := none } : Pair).Follows mode next := by
    intro mode next valid reply
    rcases reply with silent | ⟨ack, solid⟩
    · rw [answer] at silent
      cases silent
    · rw [answer] at ack
      cases ack
      rcases solid.acknowledged valid with ⟨-, pending⟩ | ⟨-, ignored⟩
      · exact .acknowledged pending rfl
      · exact .stays (ignored.symm ▸ solid)
  have confirms : pair.Confirming →
      nib = 0 ∧ pair.initiator.current = pair.responder.current := by
    intro reply
    rcases reply with silent | ⟨plain, same⟩
    · rw [answer] at silent
      cases silent
    · rw [answer] at plain
      exact ⟨Option.some.inj plain, same⟩
  cases joint with
  | settled mode initiator responder noRequest reply =>
      obtain ⟨rfl, -⟩ := confirms reply
      exact .settled mode ((initiator.heard true).symm ▸ initiator) responder noRequest
        (Or.inl rfl)
  | asked mode next differ valid initiator responder turn silent =>
      rw [answer] at silent
      cases silent
  | answered mode next differ valid initiator responder turn reply =>
      exact .answered mode next differ valid (acknowledged valid reply) responder turn
        (Or.inl rfl)
  | switching mode next differ valid initiator responder turn reply =>
      exact .switching mode next differ valid (acknowledged valid reply) responder turn
        (Or.inl rfl)
  | moved mode next differ valid initiator responder turn reply =>
      exact .moved mode next differ valid (acknowledged valid reply) responder turn
        (Or.inl rfl)
  | confirmed mode other differ initiator responder noRequest reply =>
      obtain ⟨rfl, same⟩ := confirms reply
      have heard := (initiator.heard (same.trans responder.current) true).1
      exact .settled mode heard responder noRequest (Or.inl rfl)

theorem Coherent.initiatorReceive (coherent : pair.Coherent) :
    (pair.step .initiatorReceive).Coherent := by
  simp only [step]
  split
  next waiting =>
    unfold Pair.initiatorReceive
    refine ⟨?_, fun absent => absurd rfl absent⟩
    cases answer : pair.reply with
    | none => exact coherent.joint.of_initiatorTurn (fun _ => rfl) (Or.inl rfl)
    | some nib => exact coherent.joint.received answer
  · exact coherent

theorem Coherent.responderReply (coherent : pair.Coherent) (lost : Bool) :
    (pair.step (.responderReply lost)).Coherent := by
  simp only [step]
  split
  next heard =>
    have other : ∀ {turn}, pair.responderTurn = turn → turn = .heard :=
      fun at_ => at_.symm.trans heard
    unfold Pair.responderReply
    split
    next hears =>
      obtain ⟨-, waiting, same⟩ := hears
      refine ⟨?_, fun _ => waiting⟩
      cases coherent.joint with
      | settled mode initiator responder noRequest =>
          exact .settled mode initiator responder noRequest
            (Or.inr ⟨congrArg some (responder.txCtrl_silent noRequest), same⟩)
      | asked mode next differ valid initiator responder =>
          exact .answered mode next differ valid (.stays initiator) responder rfl
            (Or.inr ⟨congrArg some responder.txCtrl, initiator⟩)
      | answered _ _ _ _ _ _ turn | switching _ _ _ _ _ _ turn | moved _ _ _ _ _ _ turn =>
          cases other turn
      | confirmed mode next differ initiator responder noRequest =>
          exact .confirmed mode next differ initiator responder noRequest
            (Or.inr ⟨congrArg some (responder.txCtrl_silent noRequest), same⟩)
    · refine ⟨?_, coherent.listens⟩
      cases coherent.joint with
      | settled mode initiator responder noRequest reply =>
          exact .settled mode initiator responder noRequest reply
      | asked mode next differ valid initiator responder turn reply =>
          exact .answered mode next differ valid (.stays initiator) responder rfl (Or.inl reply)
      | answered _ _ _ _ _ _ turn | switching _ _ _ _ _ _ turn | moved _ _ _ _ _ _ turn =>
          cases other turn
      | confirmed mode next differ initiator responder noRequest reply =>
          exact .confirmed mode next differ initiator responder noRequest reply
  · exact coherent

/-! ### Switching -/

theorem Coherent.initiatorService (coherent : pair.Coherent) (now : UInt32) :
    (pair.step (.initiatorService now)).Coherent := by
  simp only [step]
  split
  next serving =>
    have silence := coherent.no_reply serving nofun
    have follows : ∀ {mode next}, mode ≠ next → pair.Follows mode next →
        ({ pair with initiator := pair.initiator.service now, initiatorTurn := .idle } :
          Pair).Follows mode next := by
      intro mode next differ old
      cases old with
      | stays solid => exact .stays ((solid.service now).symm ▸ solid)
      | acknowledged pending => exact .switched (pending.service differ now).1
      | switched trial => exact .switched ((trial.service now).symm ▸ trial)
    refine ⟨?_, fun waits => absurd silence waits⟩
    cases coherent.joint with
    | settled mode initiator responder noRequest reply =>
        exact .settled mode ((initiator.service now).symm ▸ initiator) responder noRequest
          (Or.inl silence)
    | asked mode next differ valid initiator responder turn =>
        exact .asked mode next differ valid ((initiator.service now).symm ▸ initiator) responder
          turn silence
    | answered mode next differ valid initiator responder turn =>
        exact .answered mode next differ valid (follows differ initiator) responder turn
          (Or.inl silence)
    | switching mode next differ valid initiator responder turn =>
        exact .switching mode next differ valid (follows differ initiator) responder turn
          (Or.inl silence)
    | moved mode next differ valid initiator responder turn =>
        exact .moved mode next differ valid (follows differ initiator) responder turn
          (Or.inl silence)
    | confirmed mode other differ initiator responder noRequest =>
        exact .confirmed mode other differ ((initiator.service now).symm ▸ initiator) responder
          noRequest (Or.inl silence)
  · exact coherent

/-- The responder changes while the initiator's view of the switch stays. -/
theorem Follows.of_responder {mode next : Nat} (follows : pair.Follows mode next)
    (responder : ModeSwitch) (turn : ResponderTurn) :
    ({ pair with responder := responder, responderTurn := turn } : Pair).Follows mode next := by
  cases follows with
  | stays solid => exact .stays solid
  | acknowledged pending serving => exact .acknowledged pending serving
  | switched trial => exact .switched trial

theorem Coherent.responderTick (coherent : pair.Coherent) (now : UInt32) :
    (pair.step (.responderTick now)).Coherent := by
  simp only [step]
  split
  next idle =>
    have other : ∀ {turn}, pair.responderTurn = turn → turn = .idle :=
      fun at_ => at_.symm.trans idle
    refine ⟨?_, coherent.listens⟩
    cases coherent.joint with
    | settled mode initiator responder noRequest reply =>
        rw [responder.tick]
        exact .settled mode initiator responder noRequest reply
    | asked _ _ _ _ _ _ turn | answered _ _ _ _ _ _ turn | switching _ _ _ _ _ _ turn =>
        cases other turn
    | moved mode next differ valid initiator responder turn reply =>
        exact .moved mode next differ valid (initiator.of_responder _ _)
          (responder.tick differ now) turn reply
    | confirmed mode next differ initiator responder noRequest reply =>
        rw [responder.tick]
        exact .confirmed mode next differ initiator responder noRequest reply
  · exact coherent

theorem Coherent.responderSent (coherent : pair.Coherent) :
    (pair.step .responderSent).Coherent := by
  simp only [step]
  split
  next sent =>
    have other : ∀ {turn}, pair.responderTurn = turn → turn = .sent :=
      fun at_ => at_.symm.trans sent
    refine ⟨?_, coherent.listens⟩
    cases coherent.joint with
    | settled mode initiator responder noRequest reply =>
        rw [responder.afterSend]
        exact .settled mode initiator responder noRequest reply
    | asked _ _ _ _ _ _ turn | switching _ _ _ _ _ _ turn | moved _ _ _ _ _ _ turn =>
        cases other turn
    | answered mode next differ valid initiator responder turn reply =>
        exact .switching mode next differ valid (initiator.of_responder _ _) responder.afterSend
          rfl reply
    | confirmed mode next differ initiator responder noRequest reply =>
        rw [responder.afterSend]
        exact .confirmed mode next differ initiator responder noRequest reply
  · exact coherent

theorem Coherent.responderService (coherent : pair.Coherent) (now : UInt32) :
    (pair.step (.responderService now)).Coherent := by
  simp only [step]
  split
  next serving =>
    have other : ∀ {turn}, pair.responderTurn = turn → turn = .serving :=
      fun at_ => at_.symm.trans serving
    refine ⟨?_, coherent.listens⟩
    cases coherent.joint with
    | settled mode initiator responder noRequest reply =>
        rw [responder.service]
        exact .settled mode initiator responder noRequest reply
    | asked _ _ _ _ _ _ turn | answered _ _ _ _ _ _ turn | moved _ _ _ _ _ _ turn =>
        cases other turn
    | switching mode next differ valid initiator responder turn reply =>
        exact .moved mode next differ valid (initiator.of_responder _ _)
          (responder.service differ now).1 rfl reply
    | confirmed mode next differ initiator responder noRequest reply =>
        rw [responder.service]
        exact .confirmed mode next differ initiator responder noRequest reply
  · exact coherent

/-! ### Runs -/

theorem Coherent.step (coherent : pair.Coherent) (action : Action) :
    (pair.step action).Coherent := by
  cases action with
  | request mode => exact coherent.request mode
  | abort => exact coherent.abort
  | initiatorTick now => exact coherent.initiatorTick now
  | initiatorSend lost => exact coherent.initiatorSend lost
  | initiatorReceive => exact coherent.initiatorReceive
  | initiatorService now => exact coherent.initiatorService now
  | responderTick now => exact coherent.responderTick now
  | responderReply lost => exact coherent.responderReply lost
  | responderSent => exact coherent.responderSent
  | responderService now => exact coherent.responderService now

theorem Coherent.run (coherent : pair.Coherent) (actions : List Action) :
    (pair.run actions).Coherent := by
  induction actions generalizing pair with
  | nil => exact coherent
  | cons action rest inductionHypothesis => exact inductionHypothesis (coherent.step action)

/-- The other end is on a preset mode, and this one is on probation with that mode as
its fallback, or holds it as its pending change. -/
def Heals (one other : ModeSwitch) : Prop :=
  ∃ mode : Nat, other.current = mode ∧
    ((one.probation = true ∧ one.prev = mode) ∨ one.apply = mode ∨ one.armed = mode)

theorem heals_of_trial {mode other : Nat} {one two : ModeSwitch} (trial : one.Trial mode other)
    (current : two.current = mode ∨ two.current = other) (differ : one.current ≠ two.current) :
    Heals one two := by
  rcases trial.modes with ⟨here, prev⟩ | ⟨here, prev⟩ <;> rcases current with there | there
  · exact absurd (here.trans there.symm) differ
  · exact ⟨other, there, Or.inl ⟨trial.probation, prev⟩⟩
  · exact ⟨mode, there, Or.inl ⟨trial.probation, prev⟩⟩
  · exact absurd (here.trans there.symm) differ

/-- Ends on different modes are on the way to one mode. -/
theorem Coherent.heals (coherent : pair.Coherent)
    (differ : pair.initiator.current ≠ pair.responder.current) :
    Heals pair.initiator pair.responder ∨ Heals pair.responder pair.initiator := by
  have follows : ∀ {mode next}, pair.Follows mode next → pair.responder.current = mode →
      Heals pair.initiator pair.responder := by
    intro mode next old current
    cases old with
    | stays solid => exact absurd (solid.current.trans current.symm) differ
    | acknowledged pending => exact absurd (pending.current.trans current.symm) differ
    | switched trial => exact heals_of_trial trial (Or.inl current) differ
  cases coherent.joint with
  | settled mode initiator responder =>
      exact absurd (initiator.current.trans responder.current.symm) differ
  | asked mode next _ _ initiator responder =>
      exact absurd (initiator.current.trans responder.current.symm) differ
  | answered mode next _ _ initiator responder => exact Or.inl (follows initiator responder.current)
  | switching mode next _ _ initiator responder =>
      exact Or.inl (follows initiator responder.current)
  | moved mode next _ _ initiator responder =>
      refine Or.inr (heals_of_trial responder ?_ differ.symm)
      cases initiator with
      | stays solid => exact Or.inl solid.current
      | acknowledged pending => exact Or.inl pending.current
      | switched trial => exact trial.modes.imp And.left And.left
  | confirmed mode other _ initiator responder =>
      exact Or.inl (heals_of_trial initiator (Or.inl responder.current) differ)

/-- Two ends of which neither is busy are settled on one mode. -/
theorem Coherent.agree (coherent : pair.Coherent) (initiatorFree : pair.initiator.busy = false)
    (responderFree : pair.responder.busy = false) :
    pair.initiator.current = pair.responder.current := by
  simp only [busy, Bool.or_eq_false_iff, Option.isSome_eq_false_iff, Option.isNone_iff_eq_none]
    at initiatorFree responderFree
  by_contra differ
  have free : ∀ {one two : ModeSwitch}, ((one.target = none ∧ one.armed = none) ∧
      one.apply = none) ∧ one.probation = false → ¬Heals one two := by
    rintro one two ⟨⟨⟨-, armed⟩, apply⟩, probation⟩ ⟨_, -, ⟨trial, -⟩ | pending | pending⟩
    · rw [probation] at trial
      cases trial
    · rw [apply] at pending
      cases pending
    · rw [armed] at pending
      cases pending
  exact (coherent.heals differ).elim (free initiatorFree) (free responderFree)

/-- In every state that two ends started on one mode can reach: if neither is busy
they are on the same mode, and if their modes differ, one of them falls back to or
is about to apply the mode of the other. -/
theorem agreement_run_start (initiatorMs responderMs : UInt32) (mode : Fin modeCount)
    (actions : List Action) :
    let pair := (start initiatorMs responderMs mode).run actions
    (pair.initiator.busy = false → pair.responder.busy = false →
        pair.initiator.current = pair.responder.current) ∧
      (pair.initiator.current ≠ pair.responder.current →
        Heals pair.initiator pair.responder ∨ Heals pair.responder pair.initiator) := by
  have coherent := (coherent_start initiatorMs responderMs mode).run actions
  exact ⟨coherent.agree, coherent.heals⟩

end Pair

end LoraSerial.ModeSwitch
