import LoraSerial.Device.Exchange

/-!
Owns the silence limit on a link that loses nothing: how long before `MaybeStatus` each end
last heard the other, and when `AdjustTxPower` takes that for silence.
-/

namespace LoraSerial.Device

open Library.Run

/-! ### The clock of one end -/

theorem millis_add_sub (time ms : Nat) (start : UInt32) :
    (millis (time + ms) - start).toNat = ((millis time - start).toNat + ms) % 2 ^ 32 := by
  rw [millis, millis, UInt32.ofNat_add, silence_toNat]

theorem silentAt_millis (heard ms : Nat) :
    silentAt (millis (heard + ms)) (millis heard) = decide (3000 < ms % 2 ^ 32) := by
  have elapsed : (millis (heard + ms) - millis heard).toNat = ms % 2 ^ 32 := by
    rw [millis_add_sub, UInt32.sub_self, UInt32.toNat_zero, Nat.zero_add]
  refine decide_eq_decide.mpr ?_
  rw [UInt32.lt_iff_toNat_lt, elapsed]
  rfl

theorem PowerLoop.due_iff (loop : PowerLoop) (now : UInt32) :
    loop.due now = true ↔ 1500 ≤ (now - loop.statusAt).toNat := by
  rw [PowerLoop.due, Bool.not_eq_true', decide_eq_false_iff_not, UInt32.lt_iff_toNat_lt, Nat.not_lt]
  rfl

namespace Party

variable {before middle after : Party} {ms span : Nat}

/-- `MaybeStatus` would adjust nothing now. -/
def Rested (party : Party) : Prop :=
  party.loop.due (millis party.time) = false

/-- If the end adjusts its power now, it does not take the link for silent. -/
def Governed (party : Party) : Prop :=
  party.loop.due (millis party.time) = true →
    silentAt (millis party.time) party.loop.lastRx = false

/-- Time passes and nothing is heard. -/
structure Passed (before : Party) (ms : Nat) (after : Party) : Prop where
  config : after.config = before.config
  power : after.loop.power = before.loop.power
  statusAt : after.loop.statusAt = before.loop.statusAt
  lastRx : after.loop.lastRx = before.loop.lastRx
  time : after.time = before.time + ms

/-- The last frame was heard so long ago. -/
structure Heard (before : Party) (span : Nat) (after : Party) : Prop where
  config : after.config = before.config
  power : after.loop.power = before.loop.power
  statusAt : after.loop.statusAt = before.loop.statusAt
  heard : ∃ heard, before.time ≤ heard ∧ after.time = heard + span ∧
    after.loop.lastRx = millis heard

theorem passed_wait (party : Party) (ms : Nat) : Passed party ms (party.wait ms) :=
  ⟨rfl, rfl, rfl, rfl, rfl⟩

theorem passed_reported (party : Party) (gain : ℚ) (now : UInt32) :
    Passed party 0 (party.step gain (.reported now)) :=
  ⟨rfl, rfl, rfl, rfl, rfl⟩

theorem Passed.trans {more : Nat} (first : Passed before ms middle)
    (second : Passed middle more after) : Passed before (ms + more) after where
  config := second.config.trans first.config
  power := second.power.trans first.power
  statusAt := second.statusAt.trans first.statusAt
  lastRx := second.lastRx.trans first.lastRx
  time := by rw [second.time, first.time, Nat.add_assoc]

theorem Passed.hear (first : Passed before ms middle) (second : Heard middle span after) :
    Heard before span after where
  config := second.config.trans first.config
  power := second.power.trans first.power
  statusAt := second.statusAt.trans first.statusAt
  heard := by
    obtain ⟨heard, later, time, lastRx⟩ := second.heard
    rw [first.time] at later
    exact ⟨heard, Nat.le_of_add_right_le later, time, lastRx⟩

theorem Heard.pass (first : Heard before span middle) (second : Passed middle ms after) :
    Heard before (span + ms) after where
  config := second.config.trans first.config
  power := second.power.trans first.power
  statusAt := second.statusAt.trans first.statusAt
  heard := by
    obtain ⟨heard, later, time, lastRx⟩ := first.heard
    exact ⟨heard, later, by rw [second.time, time, Nat.add_assoc], second.lastRx.trans lastRx⟩

theorem Heard.trans (first : Heard before ms middle) (second : Heard middle span after) :
    Heard before span after where
  config := second.config.trans first.config
  power := second.power.trans first.power
  statusAt := second.statusAt.trans first.statusAt
  heard := by
    obtain ⟨earlier, order, middleTime, -⟩ := first.heard
    obtain ⟨heard, later, time, lastRx⟩ := second.heard
    exact ⟨heard, by omega, time, lastRx⟩

/-! ### One pass of `MaybeStatus` -/

/-- Heard within the limit. -/
theorem Heard.governed (heard : Heard before span after) (quick : span ≤ 3000) :
    after.Governed := by
  intro _
  obtain ⟨last, -, time, lastRx⟩ := heard.heard
  rw [time, lastRx, silentAt_millis, Nat.mod_eq_of_lt (by omega), decide_eq_false_iff_not]
  omega

/-- So much later the next adjustment is due. -/
theorem due_of_elapsed (rested : before.Rested) (same : after.loop.statusAt = before.loop.statusAt)
    (late : before.time + 1500 ≤ after.time)
    (brief : after.time < before.time + (2 ^ 32 - 1500)) :
    after.loop.due (millis after.time) = true := by
  obtain ⟨elapsed, split⟩ := Nat.exists_eq_add_of_le (Nat.le_of_add_right_le late)
  have recent : (millis before.time - before.loop.statusAt).toNat < 1500 := by
    rw [Rested, ← Bool.not_eq_true, PowerLoop.due_iff, Nat.not_le] at rested
    exact rested
  have since : (millis after.time - after.loop.statusAt).toNat =
      (millis before.time - before.loop.statusAt).toNat + elapsed := by
    rw [split, same, millis_add_sub]
    exact Nat.mod_eq_of_lt (by omega)
  rw [PowerLoop.due_iff, since]
  omega

/-- Heard longer ago than the limit. -/
theorem Heard.silent (heard : Heard before span after) (slow : 3000 < span)
    (rested : before.Rested) (brief : after.time < before.time + (2 ^ 32 - 1500)) :
    after.loop.due (millis after.time) = true ∧
      silentAt (millis after.time) after.loop.lastRx = true := by
  obtain ⟨last, later, time, lastRx⟩ := heard.heard
  refine ⟨due_of_elapsed rested heard.statusAt (by omega) brief, ?_⟩
  rw [time, lastRx, silentAt_millis, Nat.mod_eq_of_lt (by omega), decide_eq_true_eq]
  exact slow

theorem Heard.quick (heard : Heard before span after) (rested : before.Rested)
    (brief : after.time < before.time + (2 ^ 32 - 1500)) (governed : after.Governed) :
    span ≤ 3000 := by
  by_contra slow
  obtain ⟨due, silent⟩ := heard.silent (Nat.lt_of_not_le slow) rested brief
  rw [governed due] at silent
  cases silent

theorem rested_maybeStatus (party : Party) : party.maybeStatus.Rested := by
  rw [Rested, maybeStatus, PowerLoop.maybeStatus]
  dsimp only
  split
  · simp only [PowerLoop.due, UInt32.sub_self]
    decide
  next waits => exact Bool.not_eq_true _ ▸ waits

/-- The report of the peer decides. -/
theorem Governed.power {party : Party} (governed : party.Governed)
    (due : party.loop.due (millis party.time) = true) :
    party.maybeStatus.loop.power =
      adjustTxPower party.config party.loop.auxRx false party.loop.power := by
  rw [maybeStatus, PowerLoop.maybeStatus, if_pos due, governed due]

end Party

/-! ### One burst -/

/-- How long the talker is busy with a burst. -/
def burstMs (burst : List Flight) : Nat :=
  (burst.map fun frame => frame.airtime + frame.pause).sum

namespace Air

theorem talker_deliver (air : Air) (frame : Flight) :
    Party.Passed air.talker (frame.airtime + frame.pause) (air.deliver frame).talker where
  config := rfl
  power := rfl
  statusAt := rfl
  lastRx := rfl
  time := Nat.add_assoc _ _ _

theorem listener_deliver (air : Air) (frame : Flight) :
    Party.Heard air.listener 0 (air.deliver frame).listener where
  config := rfl
  power := rfl
  statusAt := rfl
  heard := ⟨(air.deliver frame).listener.time,
    (Nat.le_max_left _ _).trans (Nat.le_add_right _ _), rfl, rfl⟩

theorem talker_burst (air : Air) (burst : List Flight) :
    Party.Passed air.talker (burstMs burst) (burst.foldl deliver air).talker := by
  induction burst generalizing air with
  | nil => exact Party.passed_wait air.talker 0
  | cons frame rest inductionHypothesis =>
      exact (air.talker_deliver frame).trans (inductionHypothesis _)

/-- A burst of at least one frame leaves the silence clock at its last frame. -/
theorem listener_burst (air : Air) {burst : List Flight} (nonempty : burst ≠ []) :
    Party.Heard air.listener 0 (burst.foldl deliver air).listener := by
  induction burst generalizing air with
  | nil => exact absurd rfl nonempty
  | cons frame rest inductionHypothesis =>
      have first := air.listener_deliver frame
      cases rest with
      | nil => exact first
      | cons next others => exact first.trans (inductionHypothesis _ (List.cons_ne_nil _ _))

theorem talker_turn (air : Air) (talk : Talk) :
    Party.Passed air.talker (talk.prepare + burstMs talk.burst) (air.turn talk).talker :=
  ((Party.passed_wait _ _).trans ((air.ready talk).talker_burst talk.burst)).trans
    (Party.passed_reported _ _ _)

theorem listener_turn (air : Air) {talk : Talk} (nonempty : talk.burst ≠ []) :
    Party.Heard air.listener talk.report (air.turn talk).listener := by
  have heard := ((air.ready talk).listener_burst nonempty).pass (Party.passed_wait _ talk.report)
  rw [Nat.zero_add] at heard
  exact heard

end Air

/-! ### One exchange -/

section Exchange

variable {timeOnAir : UInt32}

/-- A window is never empty. -/
theorem full_ne_nil {burst : List Flight}
    (full : burst.length = (deriveTiming timeOnAir).window.toNat) : burst ≠ [] := by
  rintro rfl
  rw [window_toNat, List.length_nil] at full
  omega

namespace Exchange

/-- What lies between the last frame the responder hears and its `MaybeStatus`. -/
def responderSpan (exchange : Exchange timeOnAir) : Nat :=
  exchange.ask.report + (exchange.answer.prepare + burstMs exchange.answer.burst) +
    exchange.responderFinish

/-- What lies between the last frame the initiator hears and its `MaybeStatus`. -/
def initiatorSpan (exchange : Exchange timeOnAir) : Nat :=
  exchange.answer.report + exchange.initiatorFinish

/-- Both ends come by `MaybeStatus` within the limit. -/
structure Quick (exchange : Exchange timeOnAir) : Prop where
  responder : exchange.responderSpan ≤ 3000
  initiator : exchange.initiatorSpan ≤ 3000

end Exchange

namespace Ends

variable {ends : Ends} {exchange : Exchange timeOnAir} {run : List (Exchange timeOnAir)}

theorem responder_atStatus (ends : Ends) (exchange : Exchange timeOnAir) :
    Party.Heard ends.responder exchange.responderSpan (ends.atStatus exchange).responder :=
  ((ends.ask.listener_turn (full_ne_nil exchange.askFull)).pass
    ((ends.answer exchange).talker_turn exchange.answer)).pass (Party.passed_wait _ _)

theorem initiator_atStatus (ends : Ends) (exchange : Exchange timeOnAir) :
    Party.Heard ends.initiator exchange.initiatorSpan (ends.atStatus exchange).initiator :=
  (ends.ask.talker_turn exchange.ask).hear
    (((ends.answer exchange).listener_turn (full_ne_nil exchange.answerFull)).pass
      (Party.passed_wait _ _))

/-- Neither end takes the link for silent when it adjusts its power. -/
def Governed (ends : Ends) (exchange : Exchange timeOnAir) : Prop :=
  (ends.atStatus exchange).initiator.Governed ∧ (ends.atStatus exchange).responder.Governed

/-- Both ends have just been by `MaybeStatus`. -/
def Rested (ends : Ends) : Prop :=
  ends.initiator.Rested ∧ ends.responder.Rested

/-- The clock does not come round within an exchange. -/
def Brief (ends : Ends) (exchange : Exchange timeOnAir) : Prop :=
  (ends.atStatus exchange).initiator.time < ends.initiator.time + (2 ^ 32 - 1500) ∧
    (ends.atStatus exchange).responder.time < ends.responder.time + (2 ^ 32 - 1500)

theorem rested_exchange (ends : Ends) (exchange : Exchange timeOnAir) :
    (ends.exchange exchange).Rested :=
  ⟨Party.rested_maybeStatus _, Party.rested_maybeStatus _⟩

theorem governed_of_quick (ends : Ends) (quick : exchange.Quick) : ends.Governed exchange :=
  ⟨(ends.initiator_atStatus exchange).governed quick.initiator,
    (ends.responder_atStatus exchange).governed quick.responder⟩

theorem quick_of_governed (rested : ends.Rested) (brief : ends.Brief exchange)
    (governed : ends.Governed exchange) : exchange.Quick := by
  constructor
  · exact (ends.responder_atStatus exchange).quick rested.2 brief.2 governed.2
  · exact (ends.initiator_atStatus exchange).quick rested.1 brief.1 governed.1

/-! ### Every run -/

/-- When both ends come by `MaybeStatus` within the limit in every exchange, neither ever
takes the link for silent. Conversely, while the clock does not come round within an
exchange, that is the only way. -/
theorem governed_iff (ends : Ends) (run : List (Exchange timeOnAir)) :
    ((∀ exchange ∈ run, exchange.Quick) → Along Ends.exchange Governed ends run) ∧
      (ends.Rested → Along Ends.exchange Brief ends run →
        Along Ends.exchange Governed ends run → ∀ exchange ∈ run, exchange.Quick) := by
  constructor
  · intro quick
    exact (along_of_mem quick).mono fun ends _ => ends.governed_of_quick
  · intro rested brief governed
    have quick := (brief.and governed).imp
      (fun ends exchange (rested : ends.Rested) fine => quick_of_governed rested fine.1 fine.2)
      (fun ends exchange _ _ => ends.rested_exchange exchange) rested
    exact forall_mem_of_along quick

end Ends

end Exchange

/-! ### A run on 'far' -/

/-- Both ends switched on at once. -/
def Ends.boot (config : PowerConfig) (power : Int) : Ends where
  initiator := { config := config, time := 0, loop := .boot power }
  responder := { config := config, time := 0, loop := .boot power }

theorem Ends.rested_boot (config : PowerConfig) (power : Int) :
    (Ends.boot config power).Rested :=
  ⟨by change (!decide ((0 : UInt32) - 0 < 1500)) = false; decide,
    by change (!decide ((0 : UInt32) - 0 < 1500)) = false; decide⟩

/-- A full frame takes 13.77 s. -/
def farTimeOnAir : UInt32 := 13770752

def farEnds : Ends :=
  .boot ⟨featApwr, ⟨⟨12, 0, 8⟩, .lora ⟨12, 0, 8⟩⟩⟩ 10

/-- Two full frames, taken a millisecond after they are sent. -/
def farTalk (prepare : Nat) : Talk where
  prepare := prepare
  burst := [⟨13771, 0, 1, 20⟩, ⟨13771, 0, 1, 20⟩]
  report := 1

def farExchange : Exchange farTimeOnAir where
  ask := farTalk 50
  answer := farTalk 20
  initiatorFinish := 5
  responderFinish := 5
  askFull := by decide
  answerFull := by decide

/-- The responder takes the link for silent after its own two frames. -/
theorem far_taken_for_silent :
    ¬∀ (timeOnAir : UInt32) (ends : Ends) (run : List (Exchange timeOnAir)),
      Along Ends.exchange Ends.Lossless ends run →
        Along Ends.exchange Ends.Governed ends run := by
  intro always
  have lossless : farEnds.Lossless farExchange := by decide
  obtain ⟨⟨-, responder⟩, -⟩ := always farTimeOnAir farEnds [farExchange] ⟨lossless, trivial⟩
  exact absurd (responder (by decide)) (by decide)

/-! ### Every mode -/

section Modes

variable {timeOnAir : UInt32}

def windowMs (timeOnAir : UInt32) : Nat :=
  (deriveTiming timeOnAir).window.toNat * (toaMs timeOnAir).toNat

theorem two_toa_le (timeOnAir : UInt32) : 2 * (toaMs timeOnAir).toNat ≤ windowMs timeOnAir := by
  refine Nat.mul_le_mul_right _ ?_
  rw [window_toNat]
  omega

/-- Up to half of the budget a frame, the window fits into the budget. -/
theorem windowMs_le (short : (toaMs timeOnAir).toNat ≤ 750) : windowMs timeOnAir ≤ 1500 := by
  have positive := (toaMs_bounds timeOnAir).1
  have wide : 2 ≤ 1500 / (toaMs timeOnAir).toNat :=
    (Nat.le_div_iff_mul_le (by omega)).mpr (by omega)
  have fewer : (deriveTiming timeOnAir).window.toNat ≤ 1500 / (toaMs timeOnAir).toNat := by
    rw [window_toNat]
    omega
  exact (Nat.mul_le_mul_right _ fewer).trans (Nat.div_mul_le_self _ _)

theorem windowMs_lt (timeOnAir : UInt32) : windowMs timeOnAir < 2 ^ 24 := by
  have most := (toaMs_bounds timeOnAir).2
  rcases Nat.le_total (toaMs timeOnAir).toNat 750 with short | long
  · have budget := windowMs_le short
    omega
  · have two : (deriveTiming timeOnAir).window.toNat = 2 := by
      have fewer : 1500 / (toaMs timeOnAir).toNat ≤ 2 :=
        Nat.div_le_of_le_mul (by omega)
      rw [window_toNat]
      omega
    rw [windowMs, two]
    omega

/-- What an exchange takes beyond a window of full frames. -/
structure Exchange.Within (exchange : Exchange timeOnAir) (overhead : Nat) : Prop where
  responder : exchange.responderSpan ≤ windowMs timeOnAir + overhead
  initiator : exchange.initiatorSpan ≤ overhead

/-- Full frames one after the other, with all the overhead after the answer. -/
def fullBurst (timeOnAir : UInt32) : List Flight :=
  List.replicate (deriveTiming timeOnAir).window.toNat ⟨(toaMs timeOnAir).toNat, 0, 0, 0⟩

def fullTalk (timeOnAir : UInt32) : Talk where
  prepare := 0
  burst := fullBurst timeOnAir
  report := 0

def fullExchange (timeOnAir : UInt32) (finish : Nat) : Exchange timeOnAir where
  ask := fullTalk timeOnAir
  answer := fullTalk timeOnAir
  initiatorFinish := 0
  responderFinish := finish
  askFull := List.length_replicate
  answerFull := List.length_replicate

theorem burstMs_fullBurst (timeOnAir : UInt32) :
    burstMs (fullBurst timeOnAir) = windowMs timeOnAir := by
  rw [burstMs, fullBurst, List.map_replicate, List.sum_replicate_nat, windowMs, Nat.add_zero]

/-- Both ends have come to the same time. -/
def Air.Level (air : Air) : Prop :=
  air.listener.time = air.talker.time

theorem Air.Level.deliver {air : Air} (level : air.Level) (airtime : Nat) :
    (air.deliver ⟨airtime, 0, 0, 0⟩).Level := by
  change max air.listener.time (air.talker.time + airtime) + 0 = air.talker.time + airtime + 0
  rw [level, Nat.max_eq_right (Nat.le_add_right _ _)]

theorem Air.Level.burst {air : Air} (level : air.Level) (airtime frames : Nat) :
    ((List.replicate frames ⟨airtime, 0, 0, 0⟩).foldl Air.deliver air).Level := by
  induction frames generalizing air with
  | zero => exact level
  | succ frames inductionHypothesis => exact inductionHypothesis (level.deliver airtime)

/-- A frame that follows at once is there within its airtime. -/
theorem Air.Level.awaited {air : Air} (level : air.Level) (timeOnAir : UInt32) (frames : Nat) :
    Along Air.deliver (Air.Awaited timeOnAir) air
      (List.replicate frames ⟨(toaMs timeOnAir).toNat, 0, 0, 0⟩) := by
  have most := (toaMs_bounds timeOnAir).2
  have patient : (toaMs timeOnAir).toNat ≤ (interframeMs timeOnAir).toNat := by
    have sixty : (60 : UInt32).toNat = 60 := rfl
    rw [interframeMs, UInt32.toNat_add, sixty, Nat.mod_eq_of_lt (by omega)]
    exact Nat.le_add_right _ _
  induction frames generalizing air with
  | zero => trivial
  | succ frames inductionHypothesis =>
      refine ⟨?_, inductionHypothesis (level.deliver _)⟩
      rw [Air.Awaited, level]
      exact Nat.add_le_add_left patient _

theorem Air.Level.turn {air : Air} (level : air.Level) (timeOnAir : UInt32) :
    (air.turn (fullTalk timeOnAir)).Level := by
  have ready : (air.ready (fullTalk timeOnAir)).Level := level
  exact ready.burst _ _

theorem lossless_full {ends : Ends} (level : ends.ask.Level) (finish : Nat) :
    ends.Lossless (fullExchange timeOnAir finish) := by
  have asking : (ends.ask.ready (fullTalk timeOnAir)).Level := level
  have answering :
      ((ends.answer (fullExchange timeOnAir finish)).ready (fullTalk timeOnAir)).Level :=
    (level.turn timeOnAir).symm
  refine ⟨⟨asking.le, ?_⟩, answering.le, answering.awaited _ _⟩
  change Along Air.deliver _ ((List.take 1 (List.replicate _ _)).foldl Air.deliver _)
    (List.drop 1 (List.replicate _ _))
  rw [List.take_replicate, List.drop_replicate]
  exact (asking.burst _ _).awaited _ _

/-- Twice the window, and the overhead at the responder. -/
theorem atStatus_full {ends : Ends} (level : ends.ask.Level) (timeOnAir : UInt32)
    (finish : Nat) :
    (ends.atStatus (fullExchange timeOnAir finish)).initiator.time =
        ends.initiator.time + 2 * windowMs timeOnAir ∧
      (ends.atStatus (fullExchange timeOnAir finish)).responder.time =
        ends.initiator.time + 2 * windowMs timeOnAir + finish := by
  have asked := ends.ask.talker_turn (fullTalk timeOnAir)
  have answered := (ends.answer (fullExchange timeOnAir finish)).talker_turn (fullTalk timeOnAir)
  have answering : (ends.answer (fullExchange timeOnAir finish)).Level :=
    (level.turn timeOnAir).symm
  have asking := level.turn timeOnAir
  have talked : 0 + burstMs (fullBurst timeOnAir) = windowMs timeOnAir := by
    rw [Nat.zero_add, burstMs_fullBurst]
  have askedTime := asked.time
  have answeredTime := answered.time
  change _ = _ + (0 + burstMs (fullBurst timeOnAir)) at askedTime answeredTime
  rw [talked] at askedTime answeredTime
  have reached : (ends.answer (fullExchange timeOnAir finish)).talker.time =
      ends.initiator.time + windowMs timeOnAir := asking.trans askedTime
  have levelEnd := answering.turn timeOnAir
  constructor
  · change ((ends.answer (fullExchange timeOnAir finish)).turn
      (fullTalk timeOnAir)).listener.time + 0 = _
    rw [levelEnd, answeredTime, reached]
    omega
  · change ((ends.answer (fullExchange timeOnAir finish)).turn
      (fullTalk timeOnAir)).talker.time + finish = _
    rw [answeredTime, reached]
    omega

/-- A mode is never taken for silent, whatever its frames do within the overhead, exactly
when its window of full frames and the overhead fit into the limit. -/
theorem healthy_iff (timeOnAir : UInt32) (overhead : Nat) :
    (∀ (ends : Ends) (run : List (Exchange timeOnAir)),
        Along Ends.exchange Ends.Lossless ends run →
        (∀ exchange ∈ run, exchange.Within overhead) →
        Along Ends.exchange Ends.Governed ends run) ↔
      windowMs timeOnAir + overhead ≤ 3000 := by
  constructor
  · intro healthy
    by_contra slow
    -- One exchange after a boot, with just enough overhead.
    let ends := Ends.boot ⟨featApwr, ⟨⟨7, 1, 5⟩, .lora ⟨7, 1, 5⟩⟩⟩ 10
    let exchange := fullExchange timeOnAir (min overhead 3001)
    have level : ends.ask.Level := rfl
    have responder : exchange.responderSpan = windowMs timeOnAir + min overhead 3001 := by
      change 0 + (0 + burstMs (fullBurst timeOnAir)) + min overhead 3001 = _
      rw [burstMs_fullBurst]
      omega
    have within : exchange.Within overhead := ⟨by omega, Nat.zero_le _⟩
    have governed := healthy ends [exchange] ⟨lossless_full level _, trivial⟩
      (List.forall_mem_singleton.mpr within)
    have short := windowMs_lt timeOnAir
    have times := atStatus_full level timeOnAir (min overhead 3001)
    have brief : ends.Brief exchange := by
      constructor
      · rw [times.1]
        omega
      · rw [times.2]
        change 0 + _ + _ < 0 + _
        omega
    have quick := (Ends.quick_of_governed (Ends.rested_boot _ _) brief governed.1).responder
    omega
  · intro fits ends run _ within
    refine (along_of_mem fun exchange member => ?_).mono fun ends _ => ends.governed_of_quick
    have bounded := within exchange member
    exact ⟨bounded.responder.trans fits, bounded.initiator.trans (by omega)⟩

end Modes

/-! ### Ramping up -/

section Ramp

variable {timeOnAir : UInt32} {ends : Ends}

/-- Two full frames alone outlast the limit. -/
theorem slow_of_toa {exchange : Exchange timeOnAir} (long : 1500 < (toaMs timeOnAir).toNat)
    (full : windowMs timeOnAir ≤ burstMs exchange.answer.burst) :
    3000 < exchange.responderSpan := by
  have two := two_toa_le timeOnAir
  unfold Exchange.responderSpan
  omega

theorem Party.climbs {party : Party} (apwr : party.config.feat &&& featApwr ≠ 0)
    (lora : party.config.radio.phyFsk = false) (legal : party.loop.power ≤ kTxPowerDbm)
    (due : party.loop.due (millis party.time) = true)
    (silent : silentAt (millis party.time) party.loop.lastRx = true) :
    party.maybeStatus.loop.power = min kTxPowerDbm (party.loop.power + 2) := by
  rw [maybeStatus, PowerLoop.maybeStatus, if_pos due, silent]
  simp only [adjustTxPower, if_neg apwr, lora, Bool.false_eq_true, if_false, autoPowerStep, if_true]
  have step : autoPwrStepDb = 2 := rfl
  rw [step]
  split <;> split <;> omega

/-- Where the answer outlasts the limit, the responder climbs to the greatest power whatever
the initiator reports. -/
theorem Ends.ramps (apwr : ends.responder.config.feat &&& featApwr ≠ 0)
    (lora : ends.responder.config.radio.phyFsk = false)
    (legal : ends.responder.loop.power ≤ kTxPowerDbm) (rested : ends.Rested)
    {run : List (Exchange timeOnAir)} (slow : ∀ exchange ∈ run, 3000 < exchange.responderSpan)
    (brief : Along Ends.exchange Ends.Brief ends run) :
    (run.foldl Ends.exchange ends).responder.loop.power =
      min kTxPowerDbm (ends.responder.loop.power + 2 * run.length) := by
  induction run generalizing ends with
  | nil =>
      rw [List.length_nil, Nat.cast_zero, Int.mul_zero, Int.add_zero, min_eq_right legal]
      rfl
  | cons exchange rest inductionHypothesis =>
      have heard := ends.responder_atStatus exchange
      obtain ⟨due, silent⟩ := heard.silent (slow exchange List.mem_cons_self) rested.2 brief.1.2
      have power : (ends.exchange exchange).responder.loop.power =
          min kTxPowerDbm (ends.responder.loop.power + 2) := by
        rw [← heard.power]
        refine Party.climbs ?_ ?_ ?_ due silent
        · rw [heard.config]
          exact apwr
        · rw [heard.config]
          exact lora
        · rw [heard.power]
          exact legal
      have config : (ends.exchange exchange).responder.config = ends.responder.config :=
        heard.config
      rw [List.foldl_cons, inductionHypothesis (by rw [config]; exact apwr)
        (by rw [config]; exact lora) (by rw [power]; exact min_le_left _ _)
        (ends.rested_exchange exchange)
        (fun later member => slow later (List.mem_cons_of_mem _ member)) brief.2, power,
        List.length_cons]
      push_cast
      omega

end Ramp

end LoraSerial.Device
