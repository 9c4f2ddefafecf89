import LoraSerial.Device.AutoPower
import LoraSerial.Library.Run

/-!
Owns an exchange of the two turn loops on a clock: the initiator sends its burst, the
responder answers with its own, and each end comes by `MaybeStatus`. What a frame, a pause
or the handling in between takes is an argument, in milliseconds.
-/

namespace LoraSerial.Device

open Library.Run

/-! ### Timing -/

/-- How long a listener waits for the next frame of a burst. -/
def interframeMs (timeOnAir : UInt32) : UInt32 :=
  toaMs timeOnAir + 60

def millis (time : Nat) : UInt32 :=
  UInt32.ofNat time

/-! ### One end -/

/-- An end with the time its loop has come to. -/
structure Party where
  config : PowerConfig
  time : Nat
  loop : PowerLoop
deriving DecidableEq, Repr

namespace Party

def wait (party : Party) (ms : Nat) : Party :=
  { party with time := party.time + ms }

def step (party : Party) (gain : ℚ) (event : PowerEvent) : Party :=
  { party with loop := party.loop.step party.config gain event }

def maybeStatus (party : Party) : Party :=
  { party with loop := party.loop.maybeStatus party.config (millis party.time) }

end Party

/-! ### One turn -/

/-- A frame of a burst: its airtime, the pause of the talker after it, and how long it stays
in the ring of a listener that is free to take it. -/
structure Flight where
  airtime : Nat
  pause : Nat
  latency : Nat
  gain : ℚ
deriving DecidableEq, Repr

/-- What the talker does before its burst, the burst, and what the listener does after it
before `SetAuxTx`. -/
structure Talk where
  prepare : Nat
  burst : List Flight
  report : Nat
deriving DecidableEq, Repr

structure Air where
  talker : Party
  listener : Party
deriving DecidableEq, Repr

namespace Air

/-- The talker as it begins its burst. -/
def ready (air : Air) (talk : Talk) : Air :=
  { air with talker := air.talker.wait talk.prepare }

/-- The listener takes a frame once it is sent and the frames before it are handled. -/
def deliver (air : Air) (frame : Flight) : Air :=
  let sent := air.talker.time + frame.airtime
  let taken := max air.listener.time sent + frame.latency
  { talker :=
      { air.talker.step frame.gain (.measured (millis taken)) with time := sent + frame.pause }
    listener := { air.listener.step frame.gain (.heard (millis taken)) with time := taken } }

def turn (air : Air) (talk : Talk) : Air :=
  let said := talk.burst.foldl deliver (air.ready talk)
  let listener := said.listener.wait talk.report
  { talker := said.talker.step 0 (.reported (millis listener.time)), listener := listener }

/-- The frame is there before the wait for it runs out. -/
def Awaited (timeOnAir : UInt32) (air : Air) (frame : Flight) : Prop :=
  air.talker.time + frame.airtime ≤ air.listener.time + (interframeMs timeOnAir).toNat

instance (timeOnAir : UInt32) (air : Air) (frame : Flight) :
    Decidable (air.Awaited timeOnAir frame) :=
  inferInstanceAs (Decidable (_ ≤ _))

/-- The listener is armed. -/
def Listening (air : Air) : Prop :=
  air.listener.time ≤ air.talker.time

instance (air : Air) : Decidable air.Listening :=
  inferInstanceAs (Decidable (_ ≤ _))

end Air

/-! ### One exchange -/

/-- Both ends send a full window. -/
structure Exchange (timeOnAir : UInt32) where
  ask : Talk
  answer : Talk
  initiatorFinish : Nat
  responderFinish : Nat
  askFull : ask.burst.length = (deriveTiming timeOnAir).window.toNat
  answerFull : answer.burst.length = (deriveTiming timeOnAir).window.toNat

structure Ends where
  initiator : Party
  responder : Party
deriving DecidableEq, Repr

namespace Ends

variable {timeOnAir : UInt32}

def ask (ends : Ends) : Air where
  talker := ends.initiator
  listener := ends.responder

/-- The listener of the last turn takes the next one. -/
def answer (ends : Ends) (exchange : Exchange timeOnAir) : Air where
  talker := (ends.ask.turn exchange.ask).listener
  listener := (ends.ask.turn exchange.ask).talker

/-- Both ends as they come by `MaybeStatus`. -/
def atStatus (ends : Ends) (exchange : Exchange timeOnAir) : Ends :=
  let answered := (ends.answer exchange).turn exchange.answer
  { initiator := answered.listener.wait exchange.initiatorFinish
    responder := answered.talker.wait exchange.responderFinish }

def exchange (ends : Ends) (exchange : Exchange timeOnAir) : Ends where
  initiator := (ends.atStatus exchange).initiator.maybeStatus
  responder := (ends.atStatus exchange).responder.maybeStatus

/-- Every frame is taken. The responder waits for the first one as long as it takes. -/
def Lossless (ends : Ends) (exchange : Exchange timeOnAir) : Prop :=
  let asking := ends.ask.ready exchange.ask
  let answering := (ends.answer exchange).ready exchange.answer
  (asking.Listening ∧
      Along Air.deliver (Air.Awaited timeOnAir)
        ((exchange.ask.burst.take 1).foldl Air.deliver asking) (exchange.ask.burst.drop 1)) ∧
    answering.Listening ∧
      Along Air.deliver (Air.Awaited timeOnAir) answering exchange.answer.burst

instance (ends : Ends) (exchange : Exchange timeOnAir) : Decidable (ends.Lossless exchange) :=
  inferInstanceAs (Decidable ((_ ∧ _) ∧ _ ∧ _))

end Ends

end LoraSerial.Device
