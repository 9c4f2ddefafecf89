import LoraSerial.Device.SilentBoard

/-!
Owns how two boards in 'auto' meet again: from any state of a run, over a channel that
loses nothing between ends on one mode, within a bounded time, if FEAT_ADR is on at both
and in both flashes; and the pairs that never meet, if it is off at the responder or in
the initiator's flash.
-/

namespace LoraSerial.Device

open Library.Run

/-! ### Over a lossless channel -/

/-- A pair with the times of the last event, of the last pass of each board, and of the
last exchange or change of mode. `exchanged` tells which of these two it was. -/
structure Observed where
  pair : AutoPair
  now : Nat
  initiatorSeen : Nat
  responderSeen : Nat
  met : Nat
  exchanged : Bool
deriving DecidableEq, Repr

def AutoEvent.ends : AutoEvent → Nat
  | .initiatorPass pass | .responderPass pass => pass.reboot
  | .turn time _ _ | .leftover _ _ _ time | .powerCycle _ time => time

/-- A turn that both ends hear. -/
def AutoPair.exchanges (pair : AutoPair) : AutoEvent → Bool
  | .turn _ heard replied => pair.sameMode && heard && replied
  | _ => false

/-- A board changes its mode. -/
def AutoPair.moves (pair next : AutoPair) : Bool :=
  pair.initiator.radio != next.initiator.radio || pair.responder.radio != next.responder.radio

namespace Observed

def begin (pair : AutoPair) (now : Nat) : Observed where
  pair := pair
  now := now
  initiatorSeen := now
  responderSeen := now
  met := now
  exchanged := false

def step (timeOnAir : Phy → UInt32) (seen : Observed) (event : AutoEvent) : Observed :=
  let next := seen.pair.step timeOnAir event
  { pair := next
    now := max seen.now event.ends
    initiatorSeen :=
      match event with
      | .initiatorPass pass => pass.reboot
      | _ => seen.initiatorSeen
    responderSeen :=
      match event with
      | .responderPass pass => pass.reboot
      | _ => seen.responderSeen
    met := if seen.pair.exchanges event || seen.pair.moves next then event.ends else seen.met
    exchanged := seen.pair.exchanges event || seen.exchanged && !seen.pair.moves next }

/-- Between two exchanges on one mode a pass comes within the probation. -/
def Timely (seen : Observed) (pass : SilentPass) : Prop :=
  seen.exchanged = true → seen.pair.sameMode = true →
    seen.met ≤ pass.polled ∧ pass.reboot < seen.met + probationMs.toNat

/-- What the channel and the loops do in an event. -/
def Clear (period : Nat) (seen : Observed) : AutoEvent → Prop
  | .initiatorPass pass => InPace period seen.initiatorSeen pass ∧ seen.Timely pass
  | .responderPass pass => InPace period seen.responderSeen pass ∧ seen.Timely pass
  | .turn _ heard replied => seen.pair.sameMode = true → heard = true ∧ replied = true
  | .leftover _ _ _ _ | .powerCycle _ _ => False

/-- The channel loses nothing between ends on one mode, what was under way has arrived,
the power stays on; each loop passes and ends on one mode exchange within `period`. -/
structure Lossless (period : Nat) (seen : Observed) (event : AutoEvent) : Prop where
  initiator : event.ends ≤ seen.initiatorSeen + period
  responder : event.ends ≤ seen.responderSeen + period
  meets : seen.pair.sameMode = true → event.ends ≤ seen.met + period
  clear : seen.Clear period event

/-- No exchange yet: both boards are on their way to 'medium'. -/
structure Silent (reboot rendezvous period begun : Nat) (seen : Observed) : Prop where
  valid : seen.pair.Valid
  initiator : Stage reboot rendezvous period begun seen.pair.initiator seen.initiatorSeen
  responder : Stage reboot rendezvous period begun seen.pair.responder seen.responderSeen
  initiatorSeen : begun ≤ seen.initiatorSeen
  responderSeen : begun ≤ seen.responderSeen
  met : seen.met ≤ begun + reboot + 2 * rendezvous + 7 * period
  now : seen.now ≤ begun + reboot + 2 * rendezvous + 8 * period

/-- After an exchange that switched: the next one confirms the mode. -/
structure Switching (reboot rendezvous period begun : Nat) (seen : Observed) : Prop where
  valid : seen.pair.Valid
  switched : seen.pair.Switched
  initiator : seen.pair.initiator.Fresh seen.met
  responder : seen.pair.responder.Fresh seen.met
  exchanged : seen.exchanged = true
  met : seen.met ≤ begun + reboot + 2 * rendezvous + 8 * period
  now : seen.now ≤ begun + reboot + 2 * rendezvous + 9 * period

/-- How far a pair has come. -/
inductive Phase (reboot rendezvous period begun : Nat) (seen : Observed) : Prop
  | silent (silent : Silent reboot rendezvous period begun seen)
  | switching (switching : Switching reboot rendezvous period begun seen)
  | converged (converged : seen.pair.Converged)
      (now : seen.now ≤ begun + reboot + 2 * rendezvous + 9 * period)

variable {timeOnAir : Phy → UInt32} {reboot rendezvous period begun : Nat} {seen : Observed}

theorem step_initiatorPass (seen : Observed) (pass : SilentPass) :
    seen.step timeOnAir (.initiatorPass pass) =
      { pair := { seen.pair with initiator := seen.pair.initiator.pass timeOnAir pass }
        now := max seen.now pass.reboot
        initiatorSeen := pass.reboot
        responderSeen := seen.responderSeen
        met := (seen.step timeOnAir (.initiatorPass pass)).met
        exchanged := (seen.step timeOnAir (.initiatorPass pass)).exchanged } := rfl

theorem step_responderPass (seen : Observed) (pass : SilentPass) :
    seen.step timeOnAir (.responderPass pass) =
      { pair := { seen.pair with
          responder := seen.pair.responder.pass timeOnAir { pass with decision := .none } }
        now := max seen.now pass.reboot
        initiatorSeen := seen.initiatorSeen
        responderSeen := pass.reboot
        met := (seen.step timeOnAir (.responderPass pass)).met
        exchanged := (seen.step timeOnAir (.responderPass pass)).exchanged } := rfl

theorem step_pair (seen : Observed) (event : AutoEvent) :
    (seen.step timeOnAir event).pair = seen.pair.step timeOnAir event := rfl

theorem silent_begin {pair : AutoPair} (valid : pair.Valid) (now : Nat) :
    Silent reboot rendezvous period now (begin pair now) where
  valid := valid
  initiator := by
    by_cases link : pair.initiator.watch.lastRx = 0
    · exact .alone link (by simp only [begin]; omega)
    · exact .linked link (Nat.le_refl _)
  responder := by
    by_cases link : pair.responder.watch.lastRx = 0
    · exact .alone link (by simp only [begin]; omega)
    · exact .linked link (Nat.le_refl _)
  initiatorSeen := Nat.le_refl _
  responderSeen := Nat.le_refl _
  met := by simp only [begin]; omega
  now := by simp only [begin]; omega

/-- While a board does not rest, its last pass is not long ago. -/
theorem Silent.ends_le (silent : Silent reboot rendezvous period begun seen) {event : AutoEvent}
    (lossless : seen.Lossless period event) :
    (seen.pair.initiator.Rested ∧ seen.pair.responder.Rested ∨
      event.ends ≤ begun + reboot + 2 * rendezvous + 7 * period) ∧
      event.ends ≤ begun + reboot + 2 * rendezvous + 8 * period := by
  have first := lossless.initiator
  have second := lossless.responder
  rcases AutoBoard.rested_or silent.initiator with initiator | initiator
  · rcases AutoBoard.rested_or silent.responder with responder | responder
    · have same : seen.pair.sameMode = true := by
        rw [AutoPair.sameMode, initiator.2, responder.2]
        exact beq_self_eq_true _
      have meets := lossless.meets same
      have met := silent.met
      exact ⟨Or.inl ⟨initiator, responder⟩, by omega⟩
    · exact ⟨Or.inr (by omega), by omega⟩
  · exact ⟨Or.inr (by omega), by omega⟩

/-- A mode change or an exchange that two resting boards do not make comes in time. -/
theorem Silent.met_le (silent : Silent reboot rendezvous period begun seen) {event : AutoEvent}
    (lossless : seen.Lossless period event)
    (rests : seen.pair.initiator.Rested → seen.pair.responder.Rested →
      (seen.pair.exchanges event || seen.pair.moves (seen.pair.step timeOnAir event)) = false) :
    (seen.step timeOnAir event).met ≤ begun + reboot + 2 * rendezvous + 7 * period := by
  unfold Observed.step
  dsimp only
  split
  next changes =>
    rcases (silent.ends_le lossless).1 with ⟨initiator, responder⟩ | early
    · rw [rests initiator responder] at changes
      cases changes
    · exact early
  · exact silent.met

theorem Silent.initiatorPass (silent : Silent reboot rendezvous period begun seen)
    (paced : Paced timeOnAir reboot rendezvous period) {pass : SilentPass}
    (lossless : seen.Lossless period (.initiatorPass pass)) :
    Silent reboot rendezvous period begun (seen.step timeOnAir (.initiatorPass pass)) := by
  have valid : (seen.step timeOnAir (.initiatorPass pass)).pair.Valid := by
    rw [step_pair]
    exact silent.valid.step trivial
  have stage : Stage reboot rendezvous period begun (seen.pair.initiator.pass timeOnAir pass)
      pass.reboot :=
    silent.valid.initiator.stage_pass paced silent.initiator silent.initiatorSeen lossless.clear.1
  have begins : begun ≤ pass.reboot := by
    obtain ⟨polled, reinit, fall, last, -⟩ := lossless.clear.1
    have begins := silent.initiatorSeen
    omega
  have met : (seen.step timeOnAir (.initiatorPass pass)).met ≤
      begun + reboot + 2 * rendezvous + 7 * period := by
    refine silent.met_le lossless fun rested _ => ?_
    have rests : (seen.pair.initiator.pass timeOnAir pass).radio = seen.pair.initiator.radio :=
      (silent.valid.initiator.rested_pass paced rested pass).trans rested.2.symm
    simp [AutoPair.exchanges, AutoPair.moves, AutoPair.step, rests]
  have now : (seen.step timeOnAir (.initiatorPass pass)).now ≤
      begun + reboot + 2 * rendezvous + 8 * period :=
    Nat.max_le.mpr ⟨silent.now, (silent.ends_le lossless).2⟩
  rw [step_initiatorPass] at valid met now ⊢
  exact ⟨valid, stage, silent.responder, begins, silent.responderSeen, met, now⟩

theorem Silent.responderPass (silent : Silent reboot rendezvous period begun seen)
    (paced : Paced timeOnAir reboot rendezvous period) {pass : SilentPass}
    (lossless : seen.Lossless period (.responderPass pass)) :
    Silent reboot rendezvous period begun (seen.step timeOnAir (.responderPass pass)) := by
  have valid : (seen.step timeOnAir (.responderPass pass)).pair.Valid := by
    rw [step_pair]
    exact silent.valid.step trivial
  obtain ⟨polled, reinit, fall, last, soon⟩ := lossless.clear.1
  have stage : Stage reboot rendezvous period begun
      (seen.pair.responder.pass timeOnAir { pass with decision := .none }) pass.reboot := by
    have inPace : InPace period seen.responderSeen { pass with decision := .none } :=
      ⟨polled, reinit, fall, last, soon⟩
    exact silent.valid.responder.stage_pass paced silent.responder silent.responderSeen inPace
  have begins : begun ≤ pass.reboot := by
    have begins := silent.responderSeen
    omega
  have met : (seen.step timeOnAir (.responderPass pass)).met ≤
      begun + reboot + 2 * rendezvous + 7 * period := by
    refine silent.met_le lossless fun _ rested => ?_
    have rests : (seen.pair.responder.pass timeOnAir { pass with decision := .none }).radio =
        seen.pair.responder.radio :=
      (silent.valid.responder.rested_pass paced rested _).trans rested.2.symm
    simp [AutoPair.exchanges, AutoPair.moves, AutoPair.step, rests]
  have now : (seen.step timeOnAir (.responderPass pass)).now ≤
      begun + reboot + 2 * rendezvous + 8 * period :=
    Nat.max_le.mpr ⟨silent.now, (silent.ends_le lossless).2⟩
  rw [step_responderPass] at valid met now ⊢
  exact ⟨valid, silent.initiator, stage, silent.initiatorSeen, begins, met, now⟩

/-- Ends on different modes do not hear each other. -/
theorem Silent.apart (silent : Silent reboot rendezvous period begun seen) {time : Nat}
    {heard replied : Bool} (lossless : seen.Lossless period (.turn time heard replied))
    (apart : seen.pair.sameMode = false) :
    Silent reboot rendezvous period begun (seen.step timeOnAir (.turn time heard replied)) := by
  have deaf : seen.pair.step timeOnAir (.turn time heard replied) = seen.pair := by
    simp [AutoPair.step, AutoPair.turn, apart]
  have next : seen.step timeOnAir (.turn time heard replied) =
      { seen with now := max seen.now time } := by
    simp [Observed.step, deaf, AutoPair.exchanges, AutoPair.moves, apart, AutoEvent.ends]
  rw [next]
  exact { silent with now := Nat.max_le.mpr ⟨silent.now, (silent.ends_le lossless).2⟩ }

/-- The first exchange settles the pair or switches it. -/
theorem Silent.exchange (silent : Silent reboot rendezvous period begun seen) {time : Nat}
    {heard replied : Bool} (lossless : seen.Lossless period (.turn time heard replied))
    (stamped : seen.pair.Stamped (.turn time heard replied)) (same : seen.pair.sameMode = true) :
    Phase reboot rendezvous period begun (seen.step timeOnAir (.turn time heard replied)) := by
  obtain ⟨rfl, rfl⟩ := lossless.clear same
  have now := Nat.max_le.mpr ⟨silent.now, (silent.ends_le lossless).2⟩
  have ends : time ≤ begun + reboot + 2 * rendezvous + 8 * period := (silent.ends_le lossless).2
  rcases silent.valid.turn_cases same time with converged | switched
  · exact .converged converged (by simp only [Observed.step]; omega)
  · have met : (seen.step timeOnAir (.turn time true true)).met = time := by
      simp [Observed.step, AutoPair.exchanges, same, AutoEvent.ends]
    have turned := AutoPair.turn_heard same time
    have valid : (seen.pair.turn time true true).Valid := silent.valid.turn stamped
    refine .switching ⟨valid, switched, ?_, ?_, ?_, ?_, ?_⟩
    · rw [met]
      simp only [Observed.step, AutoPair.step, turned]
      exact AutoBoard.fresh_initiator _ _ _
    · rw [met]
      simp only [Observed.step, AutoPair.step, turned]
      exact AutoBoard.fresh_responder _ _ _
    · simp [Observed.step, AutoPair.exchanges, same]
    · rw [met]
      exact ends
    · simp only [Observed.step]
      omega

theorem Switching.sameMode (switching : Switching reboot rendezvous period begun seen) :
    seen.pair.sameMode = true := by
  rw [AutoPair.sameMode, switching.switched.radio]
  exact beq_self_eq_true _

theorem Switching.ends_le (switching : Switching reboot rendezvous period begun seen)
    {event : AutoEvent} (lossless : seen.Lossless period event) :
    max seen.now event.ends ≤ begun + reboot + 2 * rendezvous + 9 * period := by
  have meets := lossless.meets switching.sameMode
  have met := switching.met
  have now := switching.now
  omega

theorem Switching.initiatorPass (switching : Switching reboot rendezvous period begun seen)
    {pass : SilentPass} (lossless : seen.Lossless period (.initiatorPass pass)) :
    Switching reboot rendezvous period begun (seen.step timeOnAir (.initiatorPass pass)) := by
  obtain ⟨inPace, timely⟩ := lossless.clear
  obtain ⟨order, soon⟩ := timely switching.exchanged switching.sameMode
  obtain ⟨fresh, radio, probation, target⟩ := switching.initiator.pass timeOnAir
    switching.valid.initiator.steady.node inPace order soon
  have valid : (seen.step timeOnAir (.initiatorPass pass)).pair.Valid := by
    rw [step_pair]
    exact switching.valid.step trivial
  have met : (seen.step timeOnAir (.initiatorPass pass)).met = seen.met := by
    simp [Observed.step, AutoPair.exchanges, AutoPair.moves, AutoPair.step, radio]
  have exchanged : (seen.step timeOnAir (.initiatorPass pass)).exchanged = true := by
    simp [Observed.step, AutoPair.exchanges, AutoPair.moves, AutoPair.step, radio,
      switching.exchanged]
  obtain ⟨same, trial, silent⟩ := switching.switched
  rw [step_initiatorPass, met, exchanged] at valid ⊢
  refine ⟨valid, ⟨radio.trans same, probation.trans trial, target trial silent⟩, fresh,
    switching.responder, rfl, switching.met, switching.ends_le lossless⟩

theorem Switching.responderPass (switching : Switching reboot rendezvous period begun seen)
    {pass : SilentPass} (lossless : seen.Lossless period (.responderPass pass)) :
    Switching reboot rendezvous period begun (seen.step timeOnAir (.responderPass pass)) := by
  obtain ⟨⟨polled, reinit, fall, last, soon⟩, timely⟩ := lossless.clear
  obtain ⟨order, early⟩ := timely switching.exchanged switching.sameMode
  have inPace : InPace period seen.responderSeen { pass with decision := .none } :=
    ⟨polled, reinit, fall, last, soon⟩
  obtain ⟨fresh, radio, -⟩ := switching.responder.pass timeOnAir
    switching.valid.responder.steady.node inPace order early
  have valid : (seen.step timeOnAir (.responderPass pass)).pair.Valid := by
    rw [step_pair]
    exact switching.valid.step trivial
  have met : (seen.step timeOnAir (.responderPass pass)).met = seen.met := by
    simp [Observed.step, AutoPair.exchanges, AutoPair.moves, AutoPair.step, radio]
  have exchanged : (seen.step timeOnAir (.responderPass pass)).exchanged = true := by
    simp [Observed.step, AutoPair.exchanges, AutoPair.moves, AutoPair.step, radio,
      switching.exchanged]
  obtain ⟨same, trial, silent⟩ := switching.switched
  rw [step_responderPass, met, exchanged] at valid ⊢
  exact ⟨valid, ⟨same.trans radio.symm, trial, silent⟩, switching.initiator, fresh, rfl,
    switching.met, switching.ends_le lossless⟩

/-- The exchange after a switch confirms it. -/
theorem Switching.turn (switching : Switching reboot rendezvous period begun seen) {time : Nat}
    {heard replied : Bool} (lossless : seen.Lossless period (.turn time heard replied)) :
    (seen.step timeOnAir (.turn time heard replied)).pair.Converged := by
  obtain ⟨rfl, rfl⟩ := lossless.clear switching.sameMode
  exact switching.valid.converges switching.sameMode switching.switched.target time

/-- An event on the way to convergence. -/
theorem Phase.step (phase : Phase reboot rendezvous period begun seen)
    (paced : Paced timeOnAir reboot rendezvous period) {event : AutoEvent}
    (lossless : seen.Lossless period event) (stamped : seen.pair.Stamped event)
    (apart : ¬seen.pair.Converged) :
    Phase reboot rendezvous period begun (seen.step timeOnAir event) := by
  cases phase with
  | silent silent =>
      cases event with
      | initiatorPass pass => exact .silent (silent.initiatorPass paced lossless)
      | responderPass pass => exact .silent (silent.responderPass paced lossless)
      | turn time heard replied =>
          cases same : seen.pair.sameMode with
          | false => exact .silent (silent.apart lossless same)
          | true => exact silent.exchange lossless stamped same
      | leftover isInitiator mode ack time => exact absurd lossless.clear not_false
      | powerCycle isInitiator time => exact absurd lossless.clear not_false
  | switching switching =>
      cases event with
      | initiatorPass pass => exact .switching (switching.initiatorPass lossless)
      | responderPass pass => exact .switching (switching.responderPass lossless)
      | turn time heard replied =>
          exact .converged (switching.turn lossless) (switching.ends_le lossless)
      | leftover isInitiator mode ack time => exact absurd lossless.clear not_false
      | powerCycle isInitiator time => exact absurd lossless.clear not_false
  | converged converged now => exact absurd converged apart

theorem Phase.now_le (phase : Phase reboot rendezvous period begun seen) :
    seen.now ≤ begun + reboot + 2 * rendezvous + 9 * period := by
  cases phase with
  | silent silent =>
      have now := silent.now
      omega
  | switching switching => exact switching.now
  | converged converged now => exact now

end Observed

/-! ### Reconvergence -/

namespace AutoPair

/-- From every state of a run, once the channel loses nothing, the two boards are on one
mode with no switch pending within `bound`. -/
def Reconverges (timeOnAir : Phy → UInt32) (period bound : Nat) (kept adr : Bool) : Prop :=
  ∀ (built savedInitiator savedResponder : PhyConfig) (events quiet : List AutoEvent) (now : Nat),
    let pair := start built savedInitiator savedResponder kept adr
    let observed := Observed.begin (events.foldl (step timeOnAir) pair) now
    Along (step timeOnAir) Stamped pair (events ++ quiet) →
    Along (Observed.step timeOnAir) (Observed.Lossless period) observed quiet →
    now + bound < (quiet.foldl (Observed.step timeOnAir) observed).now →
    ∃ first rest, quiet = first ++ rest ∧
      (first.foldl (Observed.step timeOnAir) observed).now ≤ now + bound ∧
      (first.foldl (step timeOnAir) (events.foldl (step timeOnAir) pair)).Converged

variable {timeOnAir : Phy → UInt32} {reboot rendezvous period : Nat} {pair : AutoPair}

theorem observed_pair (seen : Observed) (events : List AutoEvent) :
    (events.foldl (Observed.step timeOnAir) seen).pair =
      events.foldl (step timeOnAir) seen.pair :=
  (List.foldl_hom Observed.pair fun _ _ => rfl).symm

/-- A run on which the boards have not converged is short. -/
theorem Valid.now_le (valid : pair.Valid) (paced : Paced timeOnAir reboot rendezvous period)
    {now : Nat} {quiet : List AutoEvent}
    (stamped : Along (AutoPair.step timeOnAir) Stamped pair quiet)
    (lossless : Along (Observed.step timeOnAir) (Observed.Lossless period)
      (Observed.begin pair now) quiet)
    (apart : Along (Observed.step timeOnAir) (fun seen _ => ¬seen.pair.Converged)
      (Observed.begin pair now) quiet) :
    (quiet.foldl (Observed.step timeOnAir) (Observed.begin pair now)).now ≤
      now + reboot + 2 * rendezvous + 9 * period := by
  have lifted : Along (Observed.step timeOnAir) (fun seen event => seen.pair.Stamped event)
      (Observed.begin pair now) quiet :=
    stamped.lift fun _ _ => rfl
  have begins : Observed.Phase reboot rendezvous period now (Observed.begin pair now) :=
    .silent (Observed.silent_begin valid now)
  have keeps : ∀ (seen : Observed) (event : AutoEvent),
      seen.Phase reboot rendezvous period now →
      (seen.Lossless period event ∧ seen.pair.Stamped event) ∧ ¬seen.pair.Converged →
      (seen.step timeOnAir event).Phase reboot rendezvous period now :=
    fun _ _ phase fine => phase.step paced fine.1.1 fine.1.2 fine.2
  exact (((lossless.and lifted).and apart).invariant_foldl keeps begins).now_le

theorem Valid.reconverges (valid : pair.Valid)
    (paced : Paced timeOnAir reboot rendezvous period) {now : Nat} {quiet : List AutoEvent}
    (stamped : Along (AutoPair.step timeOnAir) Stamped pair quiet)
    (lossless : Along (Observed.step timeOnAir) (Observed.Lossless period)
      (Observed.begin pair now) quiet)
    (long : now + (reboot + 2 * rendezvous + 9 * period) <
      (quiet.foldl (Observed.step timeOnAir) (Observed.begin pair now)).now) :
    ∃ first rest, quiet = first ++ rest ∧
      (first.foldl (Observed.step timeOnAir) (Observed.begin pair now)).now ≤
        now + (reboot + 2 * rendezvous + 9 * period) ∧
      (first.foldl (AutoPair.step timeOnAir) pair).Converged := by
  rcases along_or_first (Observed.step timeOnAir) (fun seen _ => ¬seen.pair.Converged)
    (Observed.begin pair now) quiet with
    apart | ⟨first, event, rest, rfl, apart, converged⟩
  · have short := valid.now_le paced stamped lossless apart
    omega
  · have short := valid.now_le paced (along_append.mp stamped).1 (along_append.mp lossless).1 apart
    rw [not_not, observed_pair] at converged
    exact ⟨first, event :: rest, rfl, by omega, converged⟩

/-! ### FEAT_ADR off on one board -/

/-- 'far' on a board with FEAT_ADR off that has heard nothing. -/
structure Stays (board : AutoBoard) : Prop where
  node : board.watch.node = .setup ⟨12, 0, 8⟩ ⟨12, 0, 8⟩
  unlinked : board.watch.lastRx = 0
  adr : board.watch.adr = false

/-- One board stays on 'far' and the other listens on 'medium'. -/
inductive Apart (pair : AutoPair) : Prop
  | responder (listens : pair.initiator.watch.Listening 0) (stays : Stays pair.responder)
  | initiator (stays : Stays pair.initiator) (listens : pair.responder.watch.Listening 0)

theorem Apart.sameMode (apart : pair.Apart) : pair.sameMode = false := by
  rw [AutoPair.sameMode, AutoBoard.radio, AutoBoard.radio]
  cases apart with
  | responder listens stays =>
      rw [listens.radio, stays.node]
      decide
  | initiator stays listens =>
      rw [listens.radio, stays.node]
      decide

theorem Apart.not_converged (apart : pair.Apart) : ¬pair.Converged := by
  rintro ⟨same, -⟩
  have differ := apart.sameMode
  rw [AutoPair.sameMode, same, beq_self_eq_true] at differ
  cases differ

theorem listening_pass {board : AutoBoard} (listening : board.watch.Listening 0)
    (timeOnAir : Phy → UInt32) (pass : SilentPass) :
    (board.pass timeOnAir pass).watch.Listening 0 := by
  have entered := listening.enterPass timeOnAir board.start pass
  unfold AutoBoard.pass
  dsimp only
  rw [if_neg (by simp [Watch.maybeReboot, entered.lastRx])]
  exact entered.driveAdr _

/-- It has no fallback and no reason to reboot. -/
theorem Stays.pass {board : AutoBoard} (stays : Stays board) (timeOnAir : Phy → UInt32)
    (pass : SilentPass) : Stays (board.pass timeOnAir pass) := by
  obtain ⟨node, unlinked, adr⟩ := stays
  have settled : board.watch.node.Settled := by
    rw [node]
    exact Node.settled_setup _ _
  have running : board.ms.expires (board.clock pass.polled) = false := by
    rw [AutoBoard.ms, node]
    rfl
  have lastRx := (Watch.enterPass_keeps timeOnAir board.start board.watch pass).2
  have going : (Watch.enterPass timeOnAir board.start board.watch pass).maybeReboot timeOnAir
      (board.clock pass.reboot) = false := by
    simp [Watch.maybeReboot, lastRx, unlinked]
  obtain ⟨reinit, passed⟩ := AutoBoard.pass_running settled running going
  have deaf : ({ board.watch with lastReinit := reinit } : Watch).maybeRendezvous timeOnAir
      (board.clock pass.rendezvous) = { board.watch with lastReinit := reinit } := by
    unfold Watch.maybeRendezvous
    rw [if_pos (by rw [adr, node]; rfl)]
  have idle : board.decision pass = .none := if_neg (by rw [adr]; exact Bool.false_ne_true)
  rw [passed, deaf, idle]
  exact ⟨node, unlinked, adr⟩

/-- Passes and turns only. -/
def Undisturbed : AutoEvent → Prop
  | .initiatorPass _ | .responderPass _ | .turn _ _ _ => True
  | .leftover _ _ _ _ | .powerCycle _ _ => False

theorem Apart.step (apart : pair.Apart) {event : AutoEvent} (undisturbed : Undisturbed event) :
    (pair.step timeOnAir event).Apart := by
  cases event with
  | initiatorPass pass =>
      cases apart with
      | responder listens stays => exact .responder (listening_pass listens timeOnAir pass) stays
      | initiator stays listens => exact .initiator (stays.pass timeOnAir pass) listens
  | responderPass pass =>
      cases apart with
      | responder listens stays => exact .responder listens (stays.pass timeOnAir _)
      | initiator stays listens => exact .initiator stays (listening_pass listens timeOnAir _)
  | turn time heard replied =>
      have deaf : pair.step timeOnAir (.turn time heard replied) = pair := by
        simp [AutoPair.step, AutoPair.turn, apart.sameMode]
      rw [deaf]
      exact apart
  | leftover isInitiator mode ack time => exact absurd undisturbed not_false
  | powerCycle isInitiator time => exact absurd undisturbed not_false

/-- However long the passes and turns go on. -/
theorem Apart.run (apart : pair.Apart) {events : List AutoEvent}
    (undisturbed : ∀ event ∈ events, Undisturbed event) :
    (events.foldl (AutoPair.step timeOnAir) pair).Apart :=
  (along_of_mem undisturbed).invariant_foldl (fun _ _ apart only => apart.step only) apart

theorem Apart.stamped (apart : pair.Apart) {event : AutoEvent} (undisturbed : Undisturbed event) :
    pair.Stamped event := by
  cases event with
  | initiatorPass pass | responderPass pass => trivial
  | turn time heard replied =>
      intro hears
      rw [apart.sameMode] at hears
      cases hears
  | leftover isInitiator mode ack time => exact absurd undisturbed not_false
  | powerCycle isInitiator time => trivial

theorem Apart.stamped_run (timeOnAir : Phy → UInt32) (apart : pair.Apart) {events : List AutoEvent}
    (undisturbed : ∀ event ∈ events, Undisturbed event) :
    Along (AutoPair.step timeOnAir) Stamped pair events := by
  have meets : ∀ (pair : AutoPair) (event : AutoEvent), pair.Apart → Undisturbed event →
      pair.Stamped event :=
    fun _ _ apart only => apart.stamped only
  have keeps : ∀ (pair : AutoPair) (event : AutoEvent), pair.Apart → Undisturbed event →
      (pair.step timeOnAir event).Apart :=
    fun _ _ apart only => apart.step only
  exact (along_of_mem undisturbed).imp meets keeps apart

def passAt (time : Nat) : SilentPass where
  polled := time
  reinit := time
  rendezvous := time
  reboot := time
  decision := .none

theorem inPace_passAt (period now : Nat) : InPace period now (passAt (now + period)) where
  polled := Nat.le_add_right now period
  reinit := Nat.le_refl _
  rendezvous := Nat.le_refl _
  reboot := Nat.le_refl _
  soon := Nat.le_refl _

/-- Both boards pass at `time` and then take a turn. -/
def round (time : Nat) : List AutoEvent :=
  [.initiatorPass (passAt time), .responderPass (passAt time), .turn time true true]

/-- So many rounds, one at the end of every period. -/
def steadyRun (period : Nat) : Nat → Nat → List AutoEvent
  | _, 0 => []
  | now, rounds + 1 => round (now + period) ++ steadyRun period (now + period) rounds

theorem undisturbed_round (time : Nat) : ∀ event ∈ round time, Undisturbed event := by
  intro event member
  simp only [round, List.mem_cons, List.not_mem_nil, or_false] at member
  rcases member with rfl | rfl | rfl <;> trivial

theorem undisturbed_steadyRun (period now rounds : Nat) :
    ∀ event ∈ steadyRun period now rounds, Undisturbed event := by
  induction rounds generalizing now with
  | zero => nofun
  | succ rounds inductionHypothesis =>
      intro event member
      rcases List.mem_append.mp member with here | later
      · exact undisturbed_round _ event here
      · exact inductionHypothesis (now + period) event later

/-- Between boards on different modes the channel has nothing to lose. -/
theorem Apart.lossless_round {seen : Observed} (apart : seen.pair.Apart) {now : Nat}
    (initiator : seen.initiatorSeen = now) (responder : seen.responderSeen = now) :
    Along (Observed.step timeOnAir) (Observed.Lossless period) seen (round (now + period)) := by
  have deaf : ∀ {later : Observed}, later.pair.Apart → later.pair.sameMode ≠ true := by
    intro later apart
    rw [apart.sameMode]
    exact Bool.false_ne_true
  have inPace := inPace_passAt period now
  let first : AutoEvent := .initiatorPass (passAt (now + period))
  let second : AutoEvent := .responderPass (passAt (now + period))
  have afterFirst : (seen.step timeOnAir first).pair.Apart :=
    apart.step (show Undisturbed first from trivial)
  have afterSecond : ((seen.step timeOnAir first).step timeOnAir second).pair.Apart :=
    afterFirst.step (show Undisturbed second from trivial)
  refine ⟨⟨?_, ?_, ?_, ?_⟩, ⟨?_, ?_, ?_, ?_⟩, ⟨?_, ?_, ?_, ?_⟩, trivial⟩
  · exact Nat.le_of_eq (congrArg (· + period) initiator.symm)
  · exact Nat.le_of_eq (congrArg (· + period) responder.symm)
  · exact fun same => absurd same (deaf apart)
  · exact ⟨initiator ▸ inPace, fun _ same => absurd same (deaf apart)⟩
  · exact Nat.le_add_right _ _
  · exact Nat.le_of_eq (congrArg (· + period) responder.symm)
  · exact fun same => absurd same (deaf afterFirst)
  · exact ⟨responder ▸ inPace, fun _ same => absurd same (deaf afterFirst)⟩
  · exact Nat.le_add_right _ _
  · exact Nat.le_add_right _ _
  · exact fun same => absurd same (deaf afterSecond)
  · exact fun same => absurd same (deaf afterSecond)

theorem Apart.lossless_steadyRun (timeOnAir : Phy → UInt32) (period : Nat) {seen : Observed}
    (apart : seen.pair.Apart) {now : Nat}
    (clock : seen.now = now) (initiator : seen.initiatorSeen = now)
    (responder : seen.responderSeen = now) (rounds : Nat) :
    Along (Observed.step timeOnAir) (Observed.Lossless period) seen (steadyRun period now rounds) ∧
      ((steadyRun period now rounds).foldl (Observed.step timeOnAir) seen).now =
        now + rounds * period := by
  induction rounds generalizing seen now with
  | zero => exact ⟨trivial, by simp [steadyRun, clock]⟩
  | succ rounds inductionHypothesis =>
      generalize next : (round (now + period)).foldl (Observed.step timeOnAir) seen = later
      have laterApart : later.pair.Apart := by
        rw [← next, observed_pair]
        exact apart.run (undisturbed_round (now + period))
      have laterNow : later.now = now + period := by
        rw [← next]
        simp only [round, List.foldl, Observed.step, AutoEvent.ends, passAt]
        omega
      have laterInitiator : later.initiatorSeen = now + period := by
        rw [← next]
        rfl
      have laterResponder : later.responderSeen = now + period := by
        rw [← next]
        rfl
      obtain ⟨along, ends⟩ := inductionHypothesis laterApart laterNow laterInitiator
        laterResponder
      rw [steadyRun, along_append, List.foldl_append, next, ends, Nat.add_one_mul]
      exact ⟨⟨apart.lossless_round initiator responder, along⟩, by omega⟩

/-- The boards can go on like this for any time. -/
theorem Apart.waits (apart : pair.Apart) (timeOnAir : Phy → UInt32) {period : Nat}
    (positive : 0 < period) (bound : Nat) :
    ∃ quiet, (∀ event ∈ quiet, Undisturbed event) ∧
      Along (Observed.step timeOnAir) (Observed.Lossless period) (Observed.begin pair 0) quiet ∧
      bound < (quiet.foldl (Observed.step timeOnAir) (Observed.begin pair 0)).now := by
  have observed : (Observed.begin pair 0).pair.Apart := apart
  obtain ⟨lossless, ends⟩ :=
    observed.lossless_steadyRun timeOnAir period rfl rfl rfl (bound + 1)
  have rounds : bound + 1 ≤ (bound + 1) * period := Nat.le_mul_of_pos_right _ positive
  refine ⟨_, undisturbed_steadyRun period _ (bound + 1), lossless, ?_⟩
  rw [ends]
  omega

/-- A pair that a run can bring apart. -/
theorem not_reconverges_of_apart {kept adr : Bool} {built savedInitiator savedResponder : PhyConfig}
    {events : List AutoEvent}
    (stamped : Along (step timeOnAir) Stamped
      (start built savedInitiator savedResponder kept adr) events)
    (apart : (events.foldl (step timeOnAir)
      (start built savedInitiator savedResponder kept adr)).Apart)
    {period : Nat} (positive : 0 < period) (bound : Nat) :
    ¬Reconverges timeOnAir period bound kept adr := by
  intro reconverges
  obtain ⟨quiet, undisturbed, lossless, long⟩ := apart.waits timeOnAir positive bound
  have whole := along_append.mpr ⟨stamped, apart.stamped_run timeOnAir undisturbed⟩
  obtain ⟨first, rest, rfl, -, converged⟩ := reconverges built savedInitiator savedResponder events
    quiet 0 whole lossless (by rw [Nat.zero_add]; exact long)
  have before : ∀ event ∈ first, Undisturbed event :=
    fun event member => undisturbed event (List.mem_append_left rest member)
  exact (apart.run before).not_converged converged

/-- Without FEAT_ADR on the responder no time is enough. -/
theorem not_reconverges_responder (timeOnAir : Phy → UInt32) {period : Nat}
    (positive : 0 < period) (bound : Nat) (kept : Bool) :
    ¬Reconverges timeOnAir period bound kept false := by
  have apart : (start ⟨7, 1, 5⟩ ⟨7, 1, 5⟩ ⟨12, 0, 8⟩ kept false).Apart :=
    .responder ⟨rfl, rfl, rfl, rfl⟩ ⟨rfl, rfl, rfl⟩
  exact not_reconverges_of_apart (along_nil _) apart positive bound

/-- Nor without it in the initiator's flash, which a power cycle goes back to. -/
theorem not_reconverges_initiator (timeOnAir : Phy → UInt32) {period : Nat}
    (positive : 0 < period) (bound : Nat) (adr : Bool) :
    ¬Reconverges timeOnAir period bound false adr := by
  have apart : ([AutoEvent.powerCycle true 0].foldl (step timeOnAir)
      (start ⟨7, 1, 5⟩ ⟨12, 0, 8⟩ ⟨7, 1, 5⟩ false adr)).Apart :=
    .initiator ⟨rfl, rfl, rfl⟩ ⟨rfl, rfl, rfl, rfl⟩
  have stamped : Along (step timeOnAir) Stamped
      (start ⟨7, 1, 5⟩ ⟨12, 0, 8⟩ ⟨7, 1, 5⟩ false adr) [.powerCycle true 0] :=
    ⟨trivial, trivial⟩
  exact not_reconverges_of_apart stamped apart positive bound

/-- An auto pair converges again from every state of a run, within two rendezvous timeouts
and a reboot timeout of silence, if and only if FEAT_ADR is in the initiator's flash and
on at the responder. -/
theorem reconverges_iff (timeOnAir : Phy → UInt32) (reboot rendezvous period : Nat)
    (paced : Paced timeOnAir reboot rendezvous period) (positive : 0 < period) (kept adr : Bool) :
    Reconverges timeOnAir period (reboot + 2 * rendezvous + 9 * period) kept adr ↔
      kept = true ∧ adr = true := by
  constructor
  · intro reconverges
    cases kept with
    | false => exact absurd reconverges (not_reconverges_initiator timeOnAir positive _ adr)
    | true =>
        cases adr with
        | true => exact ⟨rfl, rfl⟩
        | false => exact absurd reconverges (not_reconverges_responder timeOnAir positive _ true)
  · rintro ⟨rfl, rfl⟩ built savedInitiator savedResponder events quiet now pair observed stamped
      lossless long
    obtain ⟨before, after⟩ := along_append.mp stamped
    have valid := (valid_start built savedInitiator savedResponder).run before
    exact valid.reconverges paced after lossless long

/-- Frames of 200 ms on every mode: the thresholds are 45 s and 14.6 s. -/
theorem paced_short : Paced (fun _ => 200000) 45000 14600 1000 where
  reboots := by
    intro radio
    change (recoveryMs (fun _ => 200000) Watch.mediumRadio 45000 12).toNat ≤ 45000
    decide
  falls := by
    intro radio
    change (recoveryMs (fun _ => 200000) Watch.mediumRadio 9000 5).toNat ≤ 14600
    decide
  range := by decide

theorem reconverges_iff_short :
    Reconverges (fun _ => 200000) 1000 (45000 + 2 * 14600 + 9 * 1000) true true ↔
      true = true ∧ true = true :=
  reconverges_iff (fun _ => 200000) 45000 14600 1000 paced_short (by decide) true true

/-- The responder saved 'far' without FEAT_ADR, the initiator runs 'auto' from 'medium'. -/
theorem never_reconverges : ¬∃ bound, Reconverges (fun _ => 200000) 1000 bound true false := by
  rintro ⟨bound, reconverges⟩
  exact not_reconverges_responder (fun _ => 200000) (by decide) bound true reconverges

end AutoPair

end LoraSerial.Device
