import LoraSerial.ModeSwitch.Engine
import Mathlib.Algebra.Group.Nat.Defs
import Mathlib.Tactic.Common

/-!
Owns bounded recovery of a mode switch in the round schedule of the repository's
model checker, without reboot and rendezvous: rounds of 100 ms, each end heard only
on the other's mode, the responder answering in the rounds where it heard the
initiator. The clock is 32 bits wide and wraps.
-/

namespace LoraSerial.ModeSwitch

/-! ### Rounds -/

/-- Two ends and the clock of the next round. -/
structure Msm where
  initiator : ModeSwitch
  responder : ModeSwitch
  now : UInt32

/-- A round before the losses stop. -/
structure LossyRound where
  requests : List (Fin modeCount)
  dropI2R : Bool
  dropR2I : Bool

/-- The exchange of one round, after both ends have polled. -/
def msmTurn (now : UInt32) (dropI2R dropR2I : Bool) (initiator responder : ModeSwitch) :
    ModeSwitch × ModeSwitch :=
  let heard := !dropI2R && initiator.current == responder.current
  let responder :=
    (if heard then responder.afterRecv initiator.txCtrl false else responder).service now
  let answered := heard && !dropR2I && responder.current == initiator.current
  let initiator := if answered then initiator.afterRecv responder.txCtrl true else initiator
  (initiator.service now, responder.afterSend.service now)

namespace Msm

def msmStep (msm : Msm) (dropI2R dropR2I : Bool) : Msm :=
  let ends := msmTurn msm.now dropI2R dropR2I (msm.initiator.tick msm.now)
    (msm.responder.tick msm.now)
  { initiator := ends.1, responder := ends.2, now := msm.now + 100 }

def start (probationMs : UInt32) (mode : Fin modeCount) : Msm where
  initiator := begin probationMs mode
  responder := begin probationMs mode
  now := 0

def request (msm : Msm) (mode : Fin modeCount) : Msm :=
  { msm with initiator := msm.initiator.request mode }

def lossyRound (msm : Msm) (round : LossyRound) : Msm :=
  (round.requests.foldl request msm).msmStep round.dropI2R round.dropR2I

def lossyRounds (msm : Msm) (rounds : List LossyRound) : Msm :=
  rounds.foldl lossyRound msm

/-- Rounds in which everything is delivered. -/
def heal : Nat → Msm → Msm
  | 0, msm => msm
  | rounds + 1, msm => heal rounds (msm.msmStep false false)

/-- Both ends are done and on one mode. -/
def quiet (msm : Msm) : Bool :=
  !msm.initiator.busy && !msm.responder.busy &&
    msm.initiator.current == msm.responder.current

end Msm

/-! ### One exchange -/

section Turn

variable {initiator responder : ModeSwitch} {mode other next : Nat}

/-- Neither a switch nor an ACK is pending. -/
structure Still (ms : ModeSwitch) : Prop where
  armed : ms.armed = none
  apply : ms.apply = none

theorem Solid.still {ms : ModeSwitch} (solid : ms.Solid mode) : ms.Still :=
  ⟨solid.armed, solid.apply⟩

theorem Trial.still {ms : ModeSwitch} (trial : ms.Trial mode other) : ms.Still :=
  ⟨trial.armed, trial.apply⟩

theorem Still.service {ms : ModeSwitch} (still : ms.Still) (now : UInt32) :
    ms.service now = ms := by
  simp [ModeSwitch.service, takeApply, still.apply]

theorem Still.afterSend {ms : ModeSwitch} (still : ms.Still) : ms.afterSend = ms := by
  simp [ModeSwitch.afterSend, still.armed]

/-- An exchange in which the responder hears nothing changes nothing. -/
theorem msmTurn_deaf (now : UInt32) {dropI2R : Bool} (dropR2I : Bool)
    (deaf : dropI2R = true ∨ initiator.current ≠ responder.current)
    (initiatorStill : initiator.Still) (responderStill : responder.Still) :
    msmTurn now dropI2R dropR2I initiator responder = (initiator, responder) := by
  have unheard : (!dropI2R && initiator.current == responder.current) = false := by
    rcases deaf with lost | apart
    · simp [lost]
    · simp [apart]
  simp [msmTurn, unheard, initiatorStill.service, responderStill.service,
    responderStill.afterSend]

/-- The responder hears a frame that leaves it settled, and confirms. -/
theorem msmTurn_confirm (now : UInt32) (dropR2I : Bool) (here : initiator.current = mode)
    (heard : initiator.current = responder.current)
    (settled : (responder.afterRecv initiator.txCtrl false).Solid mode)
    (noRequest : (responder.afterRecv initiator.txCtrl false).target = none) :
    msmTurn now false dropR2I initiator responder =
      ((if dropR2I then initiator else initiator.afterRecv 0 true).service now,
        responder.afterRecv initiator.txCtrl false) := by
  have quiet := settled.txCtrl_silent noRequest
  cases dropR2I <;>
    simp [msmTurn, heard.symm, here, settled.service, settled.afterSend, quiet]

/-- The responder hears a request, acknowledges it and switches. -/
theorem msmTurn_switch (now : UInt32) (dropR2I : Bool) (here : initiator.current = mode)
    (heard : initiator.current = responder.current)
    (armed : (responder.afterRecv initiator.txCtrl false).Armed mode next) :
    msmTurn now false dropR2I initiator responder =
      ((if dropR2I then initiator else
          initiator.afterRecv (ctrlEncode (some next) true) true).service now,
        ((responder.afterRecv initiator.txCtrl false).afterSend).service now) := by
  have waits : (responder.afterRecv initiator.txCtrl false).service now =
      responder.afterRecv initiator.txCtrl false := by
    simp [service, takeApply, armed.apply]
  cases dropR2I <;>
    simp [msmTurn, heard.symm, here, waits, armed.txCtrl]

end Turn

/-! ### Stages between rounds -/

/-- Both ends on probation together since the same moment. -/
structure Switched (initiator responder : ModeSwitch) : Prop where
  modes : ∃ mode next, mode ≠ next ∧ initiator.Trial mode next ∧ responder.Trial mode next
  current : initiator.current = responder.current
  start : initiator.probationStart = responder.probationStart

/-- Both ends settled on one mode with nothing requested. -/
structure Done (initiator responder : ModeSwitch) : Prop where
  modes : ∃ mode, initiator.Solid mode ∧ responder.Solid mode
  initiatorDone : initiator.target = none
  responderDone : responder.target = none

/-- Where two ends can be between rounds. -/
inductive Stage (initiator responder : ModeSwitch) : Prop where
  | settled (mode : Nat) (stays : initiator.Solid mode) (rests : responder.Solid mode)
      (noRequest : responder.target = none)
  | moved (mode next : Nat) (differ : mode ≠ next) (stays : initiator.Solid mode)
      (trial : responder.Trial mode next)
  | switched (both : Switched initiator responder)
  | confirmed (mode other : Nat) (differ : mode ≠ other) (trial : initiator.Trial mode other)
      (rests : responder.Solid mode) (noRequest : responder.target = none)

variable {initiator responder : ModeSwitch}

theorem Done.stage (done : Done initiator responder) : Stage initiator responder :=
  have ⟨mode, stays, rests⟩ := done.modes
  .settled mode stays rests done.responderDone

theorem Stage.still (stage : Stage initiator responder) : initiator.Still ∧ responder.Still := by
  cases stage with
  | settled mode stays rests => exact ⟨stays.still, rests.still⟩
  | moved mode next differ stays trial => exact ⟨stays.still, trial.still⟩
  | switched both =>
      obtain ⟨mode, next, -, first, second⟩ := both.modes
      exact ⟨first.still, second.still⟩
  | confirmed mode other differ trial rests => exact ⟨trial.still, rests.still⟩

/-- Two ends that are done confirm each other. -/
theorem Done.turn (done : Done initiator responder) (now : UInt32) :
    msmTurn now false false initiator responder = (initiator, responder) := by
  obtain ⟨⟨mode, stays, rests⟩, initiatorDone, responderDone⟩ := done
  have quiet := stays.txCtrl_silent initiatorDone
  have heard := rests.heard false
  have turn := msmTurn_confirm now false stays.current (stays.current.trans rests.current.symm)
    (by rw [quiet, heard]; exact rests) (by rw [quiet, heard]; exact responderDone)
  rw [quiet, heard] at turn
  simpa [stays.heard, stays.service] using turn

/-- A settled initiator and a responder on its mode that has nothing armed: either
both are done, or the request makes both switch, or only the responder when the
reply is lost. -/
theorem turn_of_solid {mode : Nat} (now : UInt32) (dropR2I : Bool)
    (stays : initiator.Solid mode) (current : responder.current = mode)
    (still : responder.Still) (target : responder.target = none)
    (heard : (responder.afterRecv 0 false).Solid mode ∧
      (responder.afterRecv 0 false).target = none) :
    ∃ initiator' responder',
      msmTurn now false dropR2I initiator responder = (initiator', responder') ∧
      Stage initiator' responder' ∧
      (dropR2I = false → Done initiator' responder' ∨ Switched initiator' responder') := by
  have here : initiator.current = responder.current := stays.current.trans current.symm
  rcases stays.txCtrl_cases with ⟨done, quiet⟩ | ⟨next, asks, other, valid, asking⟩
  · have turn := msmTurn_confirm now dropR2I stays.current here
      (by rw [quiet]; exact heard.1) (by rw [quiet]; exact heard.2)
    have kept : (if dropR2I then initiator else initiator.afterRecv 0 true).service now =
        initiator := by
      cases dropR2I <;> simp [stays.heard, stays.service]
    rw [kept, quiet] at turn
    have both : Done initiator (responder.afterRecv 0 false) := ⟨⟨mode, stays, heard.1⟩, done, heard.2⟩
    exact ⟨_, _, turn, both.stage, fun _ => Or.inl both⟩
  · have armed := armed_of_request still.armed still.apply target current valid other
    have turn := msmTurn_switch now dropR2I stays.current here (by rw [asking]; exact armed)
    rw [asking] at turn
    obtain ⟨moved, movedTo, movedAt, -⟩ := armed.afterSend.service other.symm now
    cases dropR2I with
    | true =>
        simp only [if_true, stays.service] at turn
        exact ⟨_, _, turn, .moved mode next other.symm stays moved, fun absurd => nomatch absurd⟩
    | false =>
        have accepts := (stays.acknowledged valid).resolve_right fun refused => refused.1 asks
        obtain ⟨follows, followsTo, followsAt, -⟩ := accepts.2.service other.symm now
        have both : Switched _ _ :=
          ⟨⟨mode, next, other.symm, follows, moved⟩, followsTo.trans movedTo.symm,
            followsAt.trans movedAt.symm⟩
        exact ⟨_, _, turn, .switched both, fun _ => Or.inr both⟩

/-- A responder that is heard on its mode by an initiator on probation settles, and
the initiator with it unless the reply is lost. -/
theorem turn_of_trial {mode other here : Nat} (now : UInt32) (dropR2I : Bool)
    (differ : mode ≠ other) (trial : initiator.Trial mode other)
    (at_ : initiator.current = here) (current : initiator.current = responder.current)
    (heard : (responder.afterRecv 0 false).Solid here ∧
      (responder.afterRecv 0 false).target = none) :
    ∃ initiator' responder',
      msmTurn now false dropR2I initiator responder = (initiator', responder') ∧
      Stage initiator' responder' ∧ (dropR2I = false → Done initiator' responder') := by
  have quiet := trial.txCtrl
  have turn := msmTurn_confirm now dropR2I at_ current
    (by rw [quiet]; exact heard.1) (by rw [quiet]; exact heard.2)
  rw [quiet] at turn
  cases dropR2I with
  | true =>
      simp only [if_true, trial.service] at turn
      refine ⟨_, _, turn, ?_, fun absurd => nomatch absurd⟩
      rcases trial.modes with ⟨there, -⟩ | ⟨there, -⟩
      · obtain rfl : here = mode := Option.some.inj (at_.symm.trans there)
        exact .confirmed here other differ trial heard.1 heard.2
      · obtain rfl : here = other := Option.some.inj (at_.symm.trans there)
        exact .confirmed here mode differ.symm { trial with modes := trial.modes.symm } heard.1
          heard.2
  | false =>
      have settles := trial.heard at_ true
      simp only [Bool.false_eq_true, if_false, settles.1.service] at turn
      have both : Done _ _ := ⟨⟨_, settles.1, heard.1⟩, settles.2, heard.2⟩
      exact ⟨_, _, turn, both.stage, fun _ => both⟩

/-- An exchange leads from stage to stage. Without loss, ends on one mode are done
or have switched together. -/
theorem Stage.turn (stage : Stage initiator responder) (now : UInt32) (dropI2R dropR2I : Bool) :
    ∃ initiator' responder',
      msmTurn now dropI2R dropR2I initiator responder = (initiator', responder') ∧
      Stage initiator' responder' ∧
      (dropI2R = false → dropR2I = false → initiator.current = responder.current →
        Done initiator' responder' ∨ Switched initiator' responder') := by
  obtain ⟨initiatorStill, responderStill⟩ := stage.still
  by_cases deaf : dropI2R = true ∨ initiator.current ≠ responder.current
  · refine ⟨_, _, msmTurn_deaf now dropR2I deaf initiatorStill responderStill, stage, ?_⟩
    rintro rfl - same
    exact absurd same (deaf.resolve_left Bool.false_ne_true)
  · rw [not_or, Bool.not_eq_true, not_not] at deaf
    obtain ⟨rfl, same⟩ := deaf
    have done : ∀ {initiator' responder'}, (dropR2I = false → Done initiator' responder') →
        dropR2I = false → Done initiator' responder' ∨ Switched initiator' responder' :=
      fun settles delivered => Or.inl (settles delivered)
    cases stage with
    | settled mode stays rests noRequest =>
        have heard := rests.heard false
        obtain ⟨_, _, turn, next, ends⟩ := turn_of_solid now dropR2I stays rests.current rests.still
          noRequest (by rw [heard]; exact ⟨rests, noRequest⟩)
        exact ⟨_, _, turn, next, fun _ delivered _ => ends delivered⟩
    | moved mode next differ stays trial =>
        have current : responder.current = mode := same.symm.trans stays.current
        obtain ⟨_, _, turn, next, ends⟩ := turn_of_solid now dropR2I stays current trial.still
          trial.target (trial.heard current false)
        exact ⟨_, _, turn, next, fun _ delivered _ => ends delivered⟩
    | switched both =>
        obtain ⟨mode, next, differ, first, second⟩ := both.modes
        obtain ⟨here, current⟩ := first.here
        obtain ⟨_, _, turn, next, ends⟩ := turn_of_trial now dropR2I differ first current same
          (second.heard (same.symm.trans current) false)
        exact ⟨_, _, turn, next, fun _ delivered _ => done ends delivered⟩
    | confirmed mode other differ trial rests noRequest =>
        have heard := rests.heard false
        obtain ⟨_, _, turn, next, ends⟩ := turn_of_trial now dropR2I differ trial
          (same.trans rests.current) same (by rw [heard]; exact ⟨rests, noRequest⟩)
        exact ⟨_, _, turn, next, fun _ delivered _ => done ends delivered⟩

/-! ### Polling -/

/-- Both ends use one probation time, and clocks read multiples of 4. -/
structure Clocked (probationMs : UInt32) (ms : ModeSwitch) : Prop where
  probation : ms.probationMs = probationMs
  start : ms.probationStart.toNat % 4 = 0

theorem Switched.tick {probationMs : UInt32} (both : Switched initiator responder)
    (first : initiator.Clocked probationMs) (second : responder.Clocked probationMs)
    (now : UInt32) : Switched (initiator.tick now) (responder.tick now) := by
  obtain ⟨⟨mode, next, differ, initiatorTrial, responderTrial⟩, current, start⟩ := both
  have trials := And.intro (initiatorTrial.tick differ now) (responderTrial.tick differ now)
  have prev : initiator.prev = responder.prev := by
    rcases initiatorTrial.modes with ⟨here, away⟩ | ⟨here, away⟩ <;>
      rcases responderTrial.modes with ⟨here', away'⟩ | ⟨here', away'⟩
    · exact away.trans away'.symm
    · exact absurd (Option.some.inj (here.symm.trans (current.trans here'))) differ
    · exact absurd (Option.some.inj (here'.symm.trans (current.symm.trans here))) differ
    · exact away.trans away'.symm
  by_cases expired : probationMs ≤ now - initiator.probationStart
  · have expired' : probationMs ≤ now - responder.probationStart := start ▸ expired
    rw [← first.probation] at expired
    rw [← second.probation] at expired'
    refine ⟨⟨mode, next, differ, trials.1, trials.2⟩, ?_, ?_⟩ <;>
      rw [initiatorTrial.tick_expired differ expired, responderTrial.tick_expired differ expired']
    exact prev
  · have running : ¬probationMs ≤ now - responder.probationStart := start ▸ expired
    rw [← first.probation] at expired
    rw [← second.probation] at running
    refine ⟨⟨mode, next, differ, trials.1, trials.2⟩, ?_, ?_⟩ <;>
      rw [initiatorTrial.tick_running expired, responderTrial.tick_running running]
    · exact current
    · exact start

theorem Stage.tick {probationMs : UInt32} (stage : Stage initiator responder)
    (first : initiator.Clocked probationMs) (second : responder.Clocked probationMs)
    (now : UInt32) : Stage (initiator.tick now) (responder.tick now) := by
  cases stage with
  | settled mode stays rests noRequest =>
      rw [stays.tick, rests.tick]
      exact .settled mode stays rests noRequest
  | moved mode next differ stays trial =>
      rw [stays.tick]
      exact .moved mode next differ stays (trial.tick differ now)
  | switched both => exact .switched (both.tick first second now)
  | confirmed mode other differ trial rests noRequest =>
      rw [rests.tick]
      exact .confirmed mode other differ (trial.tick differ now) rests noRequest

/-- Ends on different modes: one of them is on probation, and nothing changes until
that probation has expired, which brings it to the mode of the other. -/
theorem Stage.apart {probationMs : UInt32} (stage : Stage initiator responder)
    (first : initiator.Clocked probationMs) (second : responder.Clocked probationMs)
    (differ : initiator.current ≠ responder.current) :
    ∃ since : UInt32, since.toNat % 4 = 0 ∧
      (∀ now, probationMs ≤ now - since →
        (initiator.tick now).current = (responder.tick now).current) ∧
      ∀ now, ¬probationMs ≤ now - since →
        initiator.tick now = initiator ∧ responder.tick now = responder := by
  cases stage with
  | settled mode stays rests => exact absurd (stays.current.trans rests.current.symm) differ
  | switched both => exact absurd both.current differ
  | moved mode next apart stays trial =>
      have back : responder.prev = mode := by
        rcases trial.modes with ⟨here, -⟩ | ⟨-, back⟩
        · exact absurd (stays.current.trans here.symm) differ
        · exact back
      refine ⟨responder.probationStart, second.start, fun now expired => ?_,
        fun now running => ?_⟩
      · rw [← second.probation] at expired
        rw [stays.tick, trial.tick_expired apart expired, stays.current]
        exact back.symm
      · rw [← second.probation] at running
        exact ⟨stays.tick now, trial.tick_running running⟩
  | confirmed mode other apart trial rests =>
      have back : initiator.prev = mode := by
        rcases trial.modes with ⟨here, -⟩ | ⟨-, back⟩
        · exact absurd (here.trans rests.current.symm) differ
        · exact back
      refine ⟨initiator.probationStart, first.start, fun now expired => ?_,
        fun now running => ?_⟩
      · rw [← first.probation] at expired
        rw [rests.tick, trial.tick_expired apart expired, rests.current]
        exact back
      · rw [← first.probation] at running
        exact ⟨trial.tick_running running, rests.tick now⟩

/-! ### Clocks -/

section Clock

variable {probationMs now : UInt32} {ms : ModeSwitch}

theorem Clocked.service (clocked : ms.Clocked probationMs) (aligned : now.toNat % 4 = 0) :
    (ms.service now).Clocked probationMs := by
  unfold ModeSwitch.service takeApply
  cases ms.apply with
  | none => exact clocked
  | some mode => exact ⟨clocked.probation, aligned⟩

theorem Clocked.tick (clocked : ms.Clocked probationMs) (aligned : now.toNat % 4 = 0) :
    (ms.tick now).Clocked probationMs := by
  refine Clocked.service ?_ aligned
  unfold poll
  split
  · exact ⟨clocked.probation, clocked.start⟩
  · exact clocked

theorem Clocked.afterRecv (clocked : ms.Clocked probationMs) (rx : UInt8) (isInitiator : Bool) :
    (ms.afterRecv rx isInitiator).Clocked probationMs := by
  unfold ModeSwitch.afterRecv
  dsimp only
  split
  · exact ⟨clocked.probation, clocked.start⟩
  · split <;> split <;> exact ⟨clocked.probation, clocked.start⟩

theorem Clocked.afterSend (clocked : ms.Clocked probationMs) :
    ms.afterSend.Clocked probationMs := by
  unfold ModeSwitch.afterSend
  split
  · exact ⟨clocked.probation, clocked.start⟩
  · exact clocked

theorem Clocked.request (clocked : ms.Clocked probationMs) (mode : Nat) :
    (ms.request mode).Clocked probationMs := by
  unfold ModeSwitch.request
  split
  · exact clocked
  · exact ⟨clocked.probation, clocked.start⟩

theorem clocked_msmTurn (first : initiator.Clocked probationMs)
    (second : responder.Clocked probationMs) (aligned : now.toNat % 4 = 0)
    (dropI2R dropR2I : Bool) :
    (msmTurn now dropI2R dropR2I initiator responder).1.Clocked probationMs ∧
      (msmTurn now dropI2R dropR2I initiator responder).2.Clocked probationMs := by
  have hears : ∀ {ms : ModeSwitch} (heard : Bool) (rx : UInt8) (isInitiator : Bool),
      ms.Clocked probationMs →
      (if heard then ms.afterRecv rx isInitiator else ms).Clocked probationMs := by
    intro ms heard rx isInitiator clocked
    split
    · exact clocked.afterRecv rx isInitiator
    · exact clocked
  refine ⟨(hears _ _ true first).service aligned, ?_⟩
  exact ((hears _ _ false second).service aligned).afterSend.service aligned

end Clock

/-! ### Rounds from stage to stage -/

/-- The state between two rounds. -/
structure Msm.Steady (probationMs : UInt32) (msm : Msm) : Prop where
  stage : Stage msm.initiator msm.responder
  initiator : msm.initiator.Clocked probationMs
  responder : msm.responder.Clocked probationMs
  aligned : msm.now.toNat % 4 = 0

namespace Msm

variable {probationMs : UInt32} {msm : Msm}

theorem steady_start (probationMs : UInt32) (mode : Fin modeCount) :
    (start probationMs mode).Steady probationMs where
  stage := .settled mode (begin_solid _ _) (begin_solid _ _) rfl
  initiator := ⟨rfl, rfl⟩
  responder := ⟨rfl, rfl⟩
  aligned := rfl

theorem aligned_add {now : UInt32} (aligned : now.toNat % 4 = 0) :
    (now + 100).toNat % 4 = 0 := by
  rw [UInt32.toNat_add]
  change (now.toNat + 100) % 2 ^ 32 % 4 = 0
  omega

theorem aligned_sub {now since : UInt32} (aligned : now.toNat % 4 = 0)
    (sinceAligned : since.toNat % 4 = 0) : (now - since).toNat % 4 = 0 := by
  have below := now.toNat_lt
  have sinceBelow := since.toNat_lt
  rw [UInt32.toNat_sub]
  omega

theorem Steady.step (steady : msm.Steady probationMs) (dropI2R dropR2I : Bool) :
    (msm.msmStep dropI2R dropR2I).Steady probationMs := by
  obtain ⟨stage, first, second, aligned⟩ := steady
  have ticked := stage.tick first second msm.now
  obtain ⟨_, _, turn, next, -⟩ := ticked.turn msm.now dropI2R dropR2I
  have clocked := clocked_msmTurn (first.tick aligned) (second.tick aligned) aligned dropI2R
    dropR2I
  rw [turn] at clocked
  simp only [msmStep, turn]
  exact ⟨next, clocked.1, clocked.2, aligned_add aligned⟩

theorem Steady.request (steady : msm.Steady probationMs) (mode : Fin modeCount) :
    (msm.request mode).Steady probationMs := by
  obtain ⟨stage, first, second, aligned⟩ := steady
  refine ⟨?_, first.request mode, second, aligned⟩
  cases stage with
  | settled here stays rests noRequest =>
      exact .settled here (stays.request_call mode.isLt) rests noRequest
  | moved here next differ stays trial =>
      exact .moved here next differ (stays.request_call mode.isLt) trial
  | switched both =>
      obtain ⟨_, _, _, trial, -⟩ := both.modes
      simp only [Msm.request, trial.request]
      exact .switched both
  | confirmed here other differ trial rests noRequest =>
      simp only [Msm.request, trial.request]
      exact .confirmed here other differ trial rests noRequest

theorem Steady.lossyRound (steady : msm.Steady probationMs) (round : LossyRound) :
    (msm.lossyRound round).Steady probationMs := by
  have requested : ∀ (requests : List (Fin modeCount)) {msm : Msm}, msm.Steady probationMs →
      (requests.foldl Msm.request msm).Steady probationMs := by
    intro requests
    induction requests with
    | nil => exact fun steady => steady
    | cons mode rest inductionHypothesis =>
        exact fun steady => inductionHypothesis (steady.request mode)
  exact (requested round.requests steady).step _ _

theorem Steady.lossyRounds (steady : msm.Steady probationMs) (rounds : List LossyRound) :
    (msm.lossyRounds rounds).Steady probationMs := by
  induction rounds generalizing msm with
  | nil => exact steady
  | cons round rest inductionHypothesis => exact inductionHypothesis (steady.lossyRound round)

/-! ### Recovery -/

/-- Quiet after `rounds` lossless rounds and ever after. -/
def QuietBy (rounds : Nat) (msm : Msm) : Prop :=
  ∀ more, rounds ≤ more → (heal more msm).quiet = true

theorem QuietBy.step {rounds : Nat} (quiet : QuietBy rounds (msm.msmStep false false)) :
    QuietBy (rounds + 1) msm := by
  intro more enough
  cases more with
  | zero => omega
  | succ more => exact quiet more (by omega)

theorem QuietBy.mono {rounds later : Nat} (quiet : QuietBy rounds msm) (below : rounds ≤ later) :
    QuietBy later msm :=
  fun more enough => quiet more (Nat.le_trans below enough)

theorem quiet_of_done (done : Done msm.initiator msm.responder) : msm.quiet = true := by
  obtain ⟨⟨mode, stays, rests⟩, initiatorDone, responderDone⟩ := done
  simp [quiet, busy, initiatorDone, responderDone, stays.armed, stays.apply, stays.probation,
    rests.armed, rests.apply, rests.probation, stays.current, rests.current]

/-- Two ends that are done stay done. -/
theorem quietBy_of_done (done : Done msm.initiator msm.responder) : QuietBy 0 msm := by
  intro more _
  induction more generalizing msm with
  | zero => exact quiet_of_done done
  | succ more inductionHypothesis =>
      refine inductionHypothesis ?_ (Nat.zero_le _)
      obtain ⟨mode, stays, rests⟩ := done.modes
      simp only [msmStep, stays.tick, rests.tick, done.turn]
      exact done

/-- Two ends that have switched together are done after one round. -/
theorem Steady.quietBy_of_switched (steady : msm.Steady probationMs)
    (both : Switched msm.initiator msm.responder) : QuietBy 1 msm := by
  have ticked := both.tick steady.initiator steady.responder msm.now
  obtain ⟨mode, next, differ, first, second⟩ := ticked.modes
  obtain ⟨here, current⟩ := first.here
  obtain ⟨_, _, turn, -, ends⟩ := turn_of_trial msm.now false differ first current ticked.current
    (second.heard (ticked.current.symm.trans current) false)
  refine QuietBy.step (quietBy_of_done ?_)
  simp only [msmStep, turn]
  exact ends rfl

/-- Ends on one mode after polling are done after two rounds. -/
theorem Steady.quietBy_of_together (steady : msm.Steady probationMs)
    (together : (msm.initiator.tick msm.now).current = (msm.responder.tick msm.now).current) :
    QuietBy 2 msm := by
  have ticked := steady.stage.tick steady.initiator steady.responder msm.now
  obtain ⟨_, _, turn, -, ends⟩ := ticked.turn msm.now false false
  refine QuietBy.step ?_
  rcases ends rfl rfl together with done | both
  · refine (quietBy_of_done ?_).mono (Nat.zero_le 1)
    simp only [msmStep, turn]
    exact done
  · refine (steady.step false false).quietBy_of_switched ?_
    simp only [msmStep, turn]
    exact both

/-- Polling leaves the ends on different modes: the exchange changes nothing. -/
theorem Steady.step_apart (steady : msm.Steady probationMs)
    (apart : (msm.initiator.tick msm.now).current ≠ (msm.responder.tick msm.now).current) :
    msm.msmStep false false =
      { initiator := msm.initiator.tick msm.now
        responder := msm.responder.tick msm.now
        now := msm.now + 100 } := by
  obtain ⟨first, second⟩ := (steady.stage.tick steady.initiator steady.responder msm.now).still
  simp only [msmStep, msmTurn_deaf msm.now false (Or.inr apart) first second]

/-- Some round within the next `rounds` finds the probation expired. -/
def ExpiresBy (probationMs elapsed : UInt32) (rounds : Nat) : Prop :=
  ∃ round ≤ rounds, probationMs.toNat ≤ (elapsed.toNat + 100 * round) % 2 ^ 32

/-- Ends on different modes are done two rounds after the one in which the
probation that keeps them apart has expired. -/
theorem Steady.quietBy_of_apart {rounds : Nat} {since : UInt32}
    (steady : msm.Steady probationMs)
    (back : ∀ now, probationMs ≤ now - since →
      (msm.initiator.tick now).current = (msm.responder.tick now).current)
    (stay : ∀ now, ¬probationMs ≤ now - since →
      msm.initiator.tick now = msm.initiator ∧ msm.responder.tick now = msm.responder)
    (expires : ExpiresBy probationMs (msm.now - since) rounds) : QuietBy (rounds + 2) msm := by
  induction rounds generalizing msm with
  | zero =>
      obtain ⟨round, none, expired⟩ := expires
      obtain rfl := Nat.le_zero.mp none
      refine steady.quietBy_of_together (back msm.now (UInt32.le_iff_toNat_le.mpr ?_))
      simpa [Nat.mod_eq_of_lt (msm.now - since).toNat_lt] using expired
  | succ rounds inductionHypothesis =>
      by_cases together :
          (msm.initiator.tick msm.now).current = (msm.responder.tick msm.now).current
      · exact (steady.quietBy_of_together together).mono (by omega)
      · have running : ¬probationMs ≤ msm.now - since := fun expired =>
          together (back msm.now expired)
        obtain ⟨same, sameResponder⟩ := stay msm.now running
        have next := steady.step_apart together
        rw [same, sameResponder] at next
        have later : QuietBy (rounds + 2) (msm.msmStep false false) := by
          have steadyNext := steady.step false false
          rw [next] at steadyNext ⊢
          refine inductionHypothesis steadyNext back stay ?_
          obtain ⟨round, within, expired⟩ := expires
          have moved : (msm.now + 100 - since).toNat = ((msm.now - since).toNat + 100) % 2 ^ 32 := by
            have regroup : msm.now + 100 - since = (msm.now - since) + 100 := by
              rw [UInt32.sub_eq_add_neg, UInt32.sub_eq_add_neg, UInt32.add_assoc, UInt32.add_assoc,
                UInt32.add_comm 100]
            rw [regroup, UInt32.toNat_add]
            rfl
          cases round with
          | zero =>
              refine absurd (UInt32.le_iff_toNat_le.mpr ?_) running
              simpa [Nat.mod_eq_of_lt (msm.now - since).toNat_lt] using expired
          | succ round =>
              refine ⟨round, by omega, ?_⟩
              change _ ≤ ((msm.now + 100 - since).toNat + _) % _
              rw [moved]
              omega
        exact later.step

/-- Rounds after which a probation has been found expired, whatever the clock. A
probation time of at most 2^32 - 100 ms is not jumped over; a longer one is met
when the clock has run through all multiples of 4. -/
def expiryRounds (probationMs : Nat) : Nat :=
  if probationMs ≤ 2 ^ 32 - 100 then probationMs / 100 + 1 else 2 ^ 30

theorem expiresBy_expiryRounds {probationMs elapsed : UInt32}
    (short : probationMs.toNat ≤ 2 ^ 32 - 4) (aligned : elapsed.toNat % 4 = 0) :
    ExpiresBy probationMs elapsed (expiryRounds probationMs.toNat) := by
  have below := elapsed.toNat_lt
  unfold expiryRounds ExpiresBy
  split
  next usual =>
    by_cases expired : probationMs.toNat ≤ elapsed.toNat
    · exact ⟨0, Nat.zero_le _, by omega⟩
    · exact ⟨(probationMs.toNat - elapsed.toNat + 99) / 100, by omega, by omega⟩
  next long =>
    -- 42949673 inverts 25 modulo 2^30, so this round reads 2^32 - 4.
    refine ⟨(2 ^ 30 - 1 - elapsed.toNat / 4) * 42949673 % 2 ^ 30, by omega, ?_⟩
    omega

/-- From any state between rounds, two ends are done within the rounds it takes a
probation to expire, and three more. -/
theorem Steady.quietBy (steady : msm.Steady probationMs)
    (short : probationMs.toNat ≤ 2 ^ 32 - 4) :
    QuietBy (expiryRounds probationMs.toNat + 3) msm := by
  by_cases together :
      (msm.initiator.tick msm.now).current = (msm.responder.tick msm.now).current
  · exact (steady.quietBy_of_together together).mono (by omega)
  · have next := steady.step_apart together
    have steadyNext := steady.step false false
    rw [next] at steadyNext
    obtain ⟨since, sinceAligned, back, stay⟩ :=
      steadyNext.stage.apart steadyNext.initiator steadyNext.responder together
    have aligned := aligned_sub steadyNext.aligned sinceAligned
    have later := steadyNext.quietBy_of_apart back stay (expiresBy_expiryRounds short aligned)
    rw [← next] at later
    exact later.step

/-- After any losses and requests, as many lossless rounds as 26 times the
probation time in rounds leave both ends done on one mode, for every probation time
from three rounds to 2^32 - 4 ms. -/
theorem recovery_within (probationMs : UInt32) (mode : Fin modeCount)
    (enough : 300 ≤ probationMs.toNat) (short : probationMs.toNat ≤ 2 ^ 32 - 4)
    (rounds : List LossyRound) :
    QuietBy (26 * (probationMs.toNat / 100)) ((start probationMs mode).lossyRounds rounds) := by
  refine (((steady_start probationMs mode).lossyRounds rounds).quietBy short).mono ?_
  unfold expiryRounds
  split <;> omega

/-- The initiator asks for mode 1 and never hears the reply. -/
def lostReply : List LossyRound :=
  [{ requests := [1], dropI2R := false, dropR2I := true }]

theorem recovery_within_lostReply : QuietBy 78 ((start 300 0).lossyRounds lostReply) :=
  recovery_within 300 0 (by decide) (by decide) lostReply

/-- A longer probation never expires: the clock moves in multiples of 4 and wraps
below it. -/
theorem Steady.apart_forever (steady : msm.Steady probationMs)
    (long : 2 ^ 32 - 4 < probationMs.toNat)
    (apart : msm.initiator.current ≠ msm.responder.current) (more : Nat) :
    (heal more msm).initiator.current ≠ (heal more msm).responder.current := by
  induction more generalizing msm with
  | zero => exact apart
  | succ more inductionHypothesis =>
      obtain ⟨since, sinceAligned, -, stay⟩ :=
        steady.stage.apart steady.initiator steady.responder apart
      have running : ¬probationMs ≤ msm.now - since := by
        have aligned := aligned_sub steady.aligned sinceAligned
        have below := (msm.now - since).toNat_lt
        rw [UInt32.le_iff_toNat_le]
        omega
      obtain ⟨same, sameResponder⟩ := stay msm.now running
      have next := steady.step_apart (by rw [same, sameResponder]; exact apart)
      refine inductionHypothesis (steady.step false false) ?_
      rw [next, same, sameResponder]
      exact apart

/-- With the longest probation time, one lost reply separates the ends for good. -/
theorem lost_reply_unrecoverable :
    ¬∃ more, (heal more ((start 0xFFFFFFFF 0).lossyRounds lostReply)).quiet = true := by
  rintro ⟨more, quiet⟩
  have steady := (steady_start 0xFFFFFFFF 0).lossyRounds lostReply
  refine steady.apart_forever (by decide) (by decide) more ?_
  simp only [Msm.quiet, Bool.and_eq_true, beq_iff_eq] at quiet
  exact quiet.2

end Msm

end LoraSerial.ModeSwitch
