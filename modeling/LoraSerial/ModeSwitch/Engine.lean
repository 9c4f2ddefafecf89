import Mathlib.Algebra.GroupWithZero.Nat
import Mathlib.Data.Nat.Notation

/-!
Owns the mode-switch engine of one end: the control nibble and the calls of
`ModeSwitch`. A mode index of -1 is `none`.
-/

namespace LoraSerial

/-! ### Control nibble -/

def ctrlEncode (mode : Option Nat) (ack : Bool) : UInt8 :=
  match mode with
  | none => 0
  | some mode => ((UInt8.ofNat (mode + 1) &&& 0x07) <<< 5) ||| if ack then 0x10 else 0

def ctrlPresent (nib : UInt8) : Bool :=
  nib &&& 0xE0 != 0

def ctrlModeIdx (nib : UInt8) : Option Nat :=
  if ctrlPresent nib then some (((nib >>> 5) &&& 0x07) - 1).toNat else none

def ctrlIsAck (nib : UInt8) : Bool :=
  nib &&& 0x10 != 0

/-- Mode indices a control nibble can carry. -/
def modeCount : Nat := 7

instance : NeZero modeCount := ⟨Nat.succ_ne_zero _⟩

@[simp] theorem ctrlModeIdx_encode {mode : Nat} (valid : mode < modeCount) (ack : Bool) :
    ctrlModeIdx (ctrlEncode (some mode) ack) = some mode := by
  have all : ∀ mode < modeCount, ∀ ack, ctrlModeIdx (ctrlEncode (some mode) ack) = some mode := by
    decide
  exact all mode valid ack

@[simp] theorem ctrlIsAck_encode {mode : Nat} (valid : mode < modeCount) (ack : Bool) :
    ctrlIsAck (ctrlEncode (some mode) ack) = ack := by
  have all : ∀ mode < modeCount, ∀ ack, ctrlIsAck (ctrlEncode (some mode) ack) = ack := by decide
  exact all mode valid ack

@[simp] theorem ctrlModeIdx_none (ack : Bool) : ctrlModeIdx (ctrlEncode none ack) = none := by
  cases ack <;> decide

/-! ### Engine -/

structure ModeSwitch where
  current : Option Nat
  prev : Option Nat
  target : Option Nat
  armed : Option Nat
  apply : Option Nat
  oweAck : Option Nat
  probation : Bool
  probationStart : UInt32
  probationMs : UInt32
deriving DecidableEq, Repr

namespace ModeSwitch

def begin (probationMs : UInt32) (mode : Option Nat) : ModeSwitch where
  current := mode
  prev := mode
  target := none
  armed := none
  apply := none
  oweAck := none
  probation := false
  probationStart := 0
  probationMs := probationMs

def busy (ms : ModeSwitch) : Bool :=
  ms.target.isSome || ms.armed.isSome || ms.apply.isSome || ms.probation

def request (ms : ModeSwitch) (mode : Nat) : ModeSwitch :=
  if some mode = ms.current ∨ ms.busy then ms else { ms with target := some mode }

def abort (ms : ModeSwitch) : ModeSwitch :=
  { ms with target := none, armed := none, oweAck := none }

/-- A responder's ACK goes before an initiator's request. -/
def txCtrl (ms : ModeSwitch) : UInt8 :=
  if ms.oweAck.isSome then ctrlEncode ms.oweAck true
  else if ms.target.isSome then ctrlEncode ms.target false
  else 0

def afterRecv (ms : ModeSwitch) (rx : UInt8) (isInitiator : Bool) : ModeSwitch :=
  let heard := { ms with probation := false }
  match ctrlModeIdx rx with
  | none => heard
  | some m =>
      if isInitiator then
        if ctrlIsAck rx ∧ some m = heard.target then { heard with apply := some m, target := none }
        else heard
      else if ¬ctrlIsAck rx ∧ some m ≠ heard.current ∧ heard.armed = none then
        { heard with oweAck := some m, armed := some m }
      else heard

def afterSend (ms : ModeSwitch) : ModeSwitch :=
  if ms.armed.isSome then { ms with apply := ms.armed, armed := none, oweAck := none } else ms

def poll (ms : ModeSwitch) (now : UInt32) : ModeSwitch :=
  if ms.probation ∧ ms.probationMs ≤ now - ms.probationStart then
    { ms with probation := false, apply := ms.prev }
  else ms

def takeApply (ms : ModeSwitch) (now : UInt32) : Option (Nat × ModeSwitch) :=
  match ms.apply with
  | none => none
  | some m =>
      some
        (m, { ms with
          apply := none
          prev := if some m ≠ ms.current then ms.current else ms.prev
          current := some m
          probation := true
          probationStart := now })

/-- `while (TakeApply(&m, now)) {}`: the second call always ends the loop. -/
def service (ms : ModeSwitch) (now : UInt32) : ModeSwitch :=
  match ms.takeApply now with
  | none => ms
  | some (_, taken) => taken

theorem takeApply_service (ms : ModeSwitch) (now : UInt32) :
    (ms.service now).takeApply now = none := by
  unfold service
  cases applied : ms.apply <;> simp [takeApply, applied]

/-- `Poll` and the loop the firmware runs right after it. -/
def tick (ms : ModeSwitch) (now : UInt32) : ModeSwitch :=
  (ms.poll now).service now

/-! ### What the calls leave alone -/

section Frame

variable (ms : ModeSwitch)

@[simp] theorem request_current (mode : Nat) : (ms.request mode).current = ms.current := by
  unfold request
  split <;> rfl

@[simp] theorem request_prev (mode : Nat) : (ms.request mode).prev = ms.prev := by
  unfold request
  split <;> rfl

@[simp] theorem request_probation (mode : Nat) : (ms.request mode).probation = ms.probation := by
  unfold request
  split <;> rfl

@[simp] theorem afterRecv_current (rx : UInt8) (isInitiator : Bool) :
    (ms.afterRecv rx isInitiator).current = ms.current := by
  unfold afterRecv
  dsimp only
  split
  · rfl
  · split <;> split <;> rfl

@[simp] theorem afterRecv_prev (rx : UInt8) (isInitiator : Bool) :
    (ms.afterRecv rx isInitiator).prev = ms.prev := by
  unfold afterRecv
  dsimp only
  split
  · rfl
  · split <;> split <;> rfl

@[simp] theorem afterRecv_probation (rx : UInt8) (isInitiator : Bool) :
    (ms.afterRecv rx isInitiator).probation = false := by
  unfold afterRecv
  dsimp only
  split
  · rfl
  · split <;> split <;> rfl

@[simp] theorem afterSend_current : ms.afterSend.current = ms.current := by
  unfold afterSend
  split <;> rfl

@[simp] theorem afterSend_prev : ms.afterSend.prev = ms.prev := by
  unfold afterSend
  split <;> rfl

@[simp] theorem afterSend_probation : ms.afterSend.probation = ms.probation := by
  unfold afterSend
  split <;> rfl

@[simp] theorem poll_current (now : UInt32) : (ms.poll now).current = ms.current := by
  unfold poll
  split <;> rfl

@[simp] theorem poll_prev (now : UInt32) : (ms.poll now).prev = ms.prev := by
  unfold poll
  split <;> rfl

theorem probation_of_poll {now : UInt32} (probation : (ms.poll now).probation = true) :
    ms.probation = true := by
  unfold poll at probation
  split at probation
  · cases probation
  · exact probation

end Frame

/-- A received frame can turn a request into a pending change, and arm; it never drops
one of these. -/
theorem outstanding_afterRecv {ms : ModeSwitch}
    (outstanding : (ms.target.isSome || ms.armed.isSome || ms.apply.isSome) = true) (rx : UInt8)
    (isInitiator : Bool) :
    ((ms.afterRecv rx isInitiator).target.isSome || (ms.afterRecv rx isInitiator).armed.isSome ||
      (ms.afterRecv rx isInitiator).apply.isSome) = true := by
  unfold afterRecv
  dsimp only
  split
  · exact outstanding
  · split <;> split
    · simp
    · exact outstanding
    · simp
    · exact outstanding

/-- What `Poll` finds when it falls back. -/
def expires (ms : ModeSwitch) (now : UInt32) : Bool :=
  ms.probation && ms.probationMs ≤ now - ms.probationStart

theorem poll_of_expires {ms : ModeSwitch} {now : UInt32} (expired : ms.expires now = true) :
    ms.poll now = { ms with probation := false, apply := ms.prev } := by
  simp only [expires, Bool.and_eq_true, decide_eq_true_eq] at expired
  simp [poll, expired.1, expired.2]

theorem poll_of_not_expires {ms : ModeSwitch} {now : UInt32} (running : ms.expires now = false) :
    ms.poll now = ms := by
  simp only [expires, Bool.and_eq_false_iff, decide_eq_false_iff_not] at running
  unfold poll
  split
  next expired =>
    rcases running with running | running
    · rw [expired.1] at running
      cases running
    · exact absurd expired.2 running
  · rfl

/-! ### The indices an engine holds -/

/-- The engine is on a mode and has one to fall back to, and every index it holds is
one of `allowed`. -/
structure Within (allowed : Nat → Prop) (ms : ModeSwitch) : Prop where
  current : ∃ mode : Nat, ms.current = mode ∧ allowed mode
  prev : ∃ mode : Nat, ms.prev = mode ∧ allowed mode
  target : ∀ mode ∈ ms.target, allowed mode
  armed : ∀ mode ∈ ms.armed, allowed mode
  apply : ∀ mode ∈ ms.apply, allowed mode
  oweAck : ∀ mode ∈ ms.oweAck, allowed mode

section Within

variable {allowed : Nat → Prop} {ms : ModeSwitch}

theorem within_begin (probationMs : UInt32) {mode : Nat} (ok : allowed mode) :
    (begin probationMs (some mode)).Within allowed where
  current := ⟨mode, rfl, ok⟩
  prev := ⟨mode, rfl, ok⟩
  target := nofun
  armed := nofun
  apply := nofun
  oweAck := nofun

theorem Within.request (within : ms.Within allowed) {mode : Nat} (ok : allowed mode) :
    (ms.request mode).Within allowed := by
  unfold ModeSwitch.request
  split
  · exact within
  · exact { within with
      target := by
        rintro _ ⟨⟩
        exact ok }

theorem Within.afterRecv (within : ms.Within allowed) {rx : UInt8} (isInitiator : Bool)
    (ok : ∀ mode ∈ ctrlModeIdx rx, allowed mode) : (ms.afterRecv rx isInitiator).Within allowed := by
  unfold ModeSwitch.afterRecv
  dsimp only
  split
  · exact { within with }
  next mode carried =>
    have held : ∀ next, some mode = some next → allowed next := by
      rintro _ ⟨⟩
      exact ok mode carried
    split <;> split
    · exact { within with target := nofun, apply := held }
    · exact { within with }
    · exact { within with oweAck := held, armed := held }
    · exact { within with }

theorem Within.afterSend (within : ms.Within allowed) : ms.afterSend.Within allowed := by
  unfold ModeSwitch.afterSend
  split
  · exact { within with apply := within.armed, armed := nofun, oweAck := nofun }
  · exact within

theorem Within.poll (within : ms.Within allowed) (now : UInt32) : (ms.poll now).Within allowed := by
  unfold ModeSwitch.poll
  split
  · obtain ⟨mode, prev, ok⟩ := within.prev
    refine { within with apply := ?_ }
    intro next pending
    obtain rfl : mode = next := Option.some.inj (prev.symm.trans pending)
    exact ok
  · exact within

theorem Within.takeApply (within : ms.Within allowed) {now : UInt32} {mode : Nat}
    {taken : ModeSwitch} (took : ms.takeApply now = some (mode, taken)) :
    allowed mode ∧ taken.Within allowed := by
  unfold ModeSwitch.takeApply at took
  split at took
  · cases took
  next pending =>
    cases took
    have ok := within.apply mode pending
    refine ⟨ok, { within with current := ⟨mode, rfl, ok⟩, apply := nofun, prev := ?_ }⟩
    dsimp only
    split
    · exact within.current
    · exact within.prev

/-- What such an engine puts on its frames. -/
theorem Within.txCtrl (within : ms.Within allowed) (small : ∀ mode, allowed mode → mode < modeCount) :
    ∀ mode ∈ ctrlModeIdx ms.txCtrl, allowed mode := by
  have carried : ∀ (held : Option Nat) (ack : Bool), (∀ mode ∈ held, allowed mode) →
      ∀ mode ∈ ctrlModeIdx (ctrlEncode held ack), allowed mode := by
    intro held ack ok mode carried
    cases held with
    | none => simp at carried
    | some next =>
        rw [ctrlModeIdx_encode (small next (ok next rfl)) ack] at carried
        exact ok mode carried
  unfold ModeSwitch.txCtrl
  split
  · exact carried _ _ within.oweAck
  · split
    · exact carried _ _ within.target
    · intro mode absent
      cases absent

end Within

/-! ### The states an end moves through -/

/-- Settled on a mode; the initiator may have a request out. -/
structure Solid (mode : Nat) (ms : ModeSwitch) : Prop where
  current : ms.current = mode
  armed : ms.armed = none
  apply : ms.apply = none
  oweAck : ms.oweAck = none
  probation : ms.probation = false
  request : ∀ next, ms.target = some next → next ≠ mode ∧ next < modeCount

/-- On probation on one of two modes, with the other as the fallback. -/
structure Trial (mode other : Nat) (ms : ModeSwitch) : Prop where
  target : ms.target = none
  armed : ms.armed = none
  apply : ms.apply = none
  oweAck : ms.oweAck = none
  probation : ms.probation = true
  modes : ms.current = mode ∧ ms.prev = other ∨ ms.current = other ∧ ms.prev = mode

/-- Still on `mode`, about to apply `next`. -/
structure Pending (mode next : Nat) (ms : ModeSwitch) : Prop where
  current : ms.current = mode
  target : ms.target = none
  armed : ms.armed = none
  apply : ms.apply = some next
  oweAck : ms.oweAck = none
  probation : ms.probation = false

/-- Still on `mode`, about to acknowledge and switch to `next`. -/
structure Armed (mode next : Nat) (ms : ModeSwitch) : Prop where
  current : ms.current = mode
  target : ms.target = none
  armed : ms.armed = some next
  apply : ms.apply = none
  oweAck : ms.oweAck = some next
  probation : ms.probation = false

variable {ms : ModeSwitch} {mode other next : Nat}

theorem begin_solid (probationMs : UInt32) (mode : Nat) : (begin probationMs mode).Solid mode where
  current := rfl
  armed := rfl
  apply := rfl
  oweAck := rfl
  probation := rfl
  request := fun _ none => nomatch none

/-! ### Settled -/

theorem Solid.service (solid : ms.Solid mode) (now : UInt32) : ms.service now = ms := by
  simp [ModeSwitch.service, takeApply, solid.apply]

theorem Solid.tick (solid : ms.Solid mode) (now : UInt32) : ms.tick now = ms := by
  simp [ModeSwitch.tick, poll, solid.probation, solid.service]

theorem Solid.afterSend (solid : ms.Solid mode) : ms.afterSend = ms := by
  simp [ModeSwitch.afterSend, solid.armed]

theorem Solid.request_call (solid : ms.Solid mode) (valid : next < modeCount) :
    (ms.request next).Solid mode := by
  unfold ModeSwitch.request
  split
  · exact solid
  next free =>
    rw [not_or] at free
    exact { solid with
      request := fun asked same => by
        cases same
        refine ⟨?_, valid⟩
        rintro rfl
        exact free.1 solid.current.symm }

theorem Solid.abort (solid : ms.Solid mode) : ms.abort.Solid mode :=
  { solid with
    armed := rfl
    oweAck := rfl
    request := fun _ none => nomatch none }

/-- What a settled end puts on its frames. -/
theorem Solid.txCtrl_cases (solid : ms.Solid mode) :
    (ms.target = none ∧ ms.txCtrl = 0) ∨
      ∃ next, ms.target = some next ∧ next ≠ mode ∧ next < modeCount ∧
        ms.txCtrl = ctrlEncode (some next) false := by
  cases asked : ms.target with
  | none => exact Or.inl ⟨rfl, by simp [txCtrl, solid.oweAck, asked]⟩
  | some next =>
      obtain ⟨other, valid⟩ := solid.request next asked
      exact Or.inr ⟨next, rfl, other, valid, by simp [txCtrl, solid.oweAck, asked]⟩

theorem Solid.txCtrl_silent (solid : ms.Solid mode) (noRequest : ms.target = none) :
    ms.txCtrl = 0 := by
  simp [txCtrl, solid.oweAck, noRequest]

/-! ### On probation -/

theorem Trial.here (trial : ms.Trial mode other) : ∃ here : Nat, ms.current = here := by
  rcases trial.modes with ⟨current, -⟩ | ⟨current, -⟩
  · exact ⟨mode, current⟩
  · exact ⟨other, current⟩

theorem Trial.busy (trial : ms.Trial mode other) : ms.busy = true := by
  simp [ModeSwitch.busy, trial.probation]

theorem Trial.service (trial : ms.Trial mode other) (now : UInt32) : ms.service now = ms := by
  simp [ModeSwitch.service, takeApply, trial.apply]

theorem Trial.tick_running (trial : ms.Trial mode other) {now : UInt32}
    (running : ¬ms.probationMs ≤ now - ms.probationStart) : ms.tick now = ms := by
  simp [ModeSwitch.tick, poll, running, trial.service]

/-- Falling back starts a new probation. -/
theorem Trial.tick_expired (trial : ms.Trial mode other) (differ : mode ≠ other) {now : UInt32}
    (expired : ms.probationMs ≤ now - ms.probationStart) :
    ms.tick now = { ms with
      current := ms.prev, prev := ms.current, probationStart := now } := by
  obtain ⟨-, -, apply, -, probation, modes⟩ := trial
  rcases modes with ⟨current, prev⟩ | ⟨current, prev⟩
  · simp [ModeSwitch.tick, poll, ModeSwitch.service, takeApply, probation, expired, apply,
      current, prev, differ.symm]
  · simp [ModeSwitch.tick, poll, ModeSwitch.service, takeApply, probation, expired, apply,
      current, prev, differ]

theorem Trial.tick (trial : ms.Trial mode other) (differ : mode ≠ other) (now : UInt32) :
    (ms.tick now).Trial mode other := by
  by_cases expired : ms.probationMs ≤ now - ms.probationStart
  · rw [trial.tick_expired differ expired]
    exact { trial with modes := trial.modes.symm.imp And.symm And.symm }
  · rw [trial.tick_running expired]
    exact trial

theorem Trial.request (trial : ms.Trial mode other) (next : Nat) : ms.request next = ms := by
  simp [ModeSwitch.request, trial.busy]

theorem Trial.abort (trial : ms.Trial mode other) : ms.abort.Trial mode other :=
  { trial with target := rfl, armed := rfl, oweAck := rfl }

theorem Trial.txCtrl (trial : ms.Trial mode other) : ms.txCtrl = 0 := by
  simp [ModeSwitch.txCtrl, trial.oweAck, trial.target]

/-- Hearing the peer ends the probation. -/
theorem Trial.heard (trial : ms.Trial mode other) {here : Nat} (current : ms.current = here)
    (isInitiator : Bool) :
    (ms.afterRecv 0 isInitiator).Solid here ∧ (ms.afterRecv 0 isInitiator).target = none := by
  have silent : ms.afterRecv 0 isInitiator = { ms with probation := false } := rfl
  rw [silent]
  exact ⟨⟨current, trial.armed, trial.apply, trial.oweAck, rfl, by simp [trial.target]⟩, trial.target⟩

/-! ### About to switch -/

theorem Pending.service (pending : ms.Pending mode next) (differ : mode ≠ next) (now : UInt32) :
    (ms.service now).Trial mode next ∧ (ms.service now).current = next ∧
      (ms.service now).probationStart = now ∧
      (ms.service now).probationMs = ms.probationMs := by
  obtain ⟨current, target, armed, apply, oweAck, -⟩ := pending
  have taken : ms.service now = { ms with
      apply := none, prev := mode, current := next, probation := true
      probationStart := now } := by
    simp [ModeSwitch.service, takeApply, apply, current, differ.symm]
  rw [taken]
  exact ⟨⟨target, armed, rfl, oweAck, rfl, Or.inr ⟨rfl, rfl⟩⟩, rfl, rfl, rfl⟩

theorem Pending.request (pending : ms.Pending mode next) (asked : Nat) :
    ms.request asked = ms := by
  simp [ModeSwitch.request, busy, pending.apply]

theorem Pending.abort (pending : ms.Pending mode next) : ms.abort.Pending mode next :=
  { pending with target := rfl, armed := rfl, oweAck := rfl }

theorem Armed.afterSend (armed : ms.Armed mode next) : ms.afterSend.Pending mode next := by
  have promoted : ms.afterSend = { ms with apply := ms.armed, armed := none, oweAck := none } := by
    simp [ModeSwitch.afterSend, armed.armed]
  rw [promoted]
  exact ⟨armed.current, armed.target, rfl, armed.armed, rfl, armed.probation⟩

theorem Armed.txCtrl (armed : ms.Armed mode next) : ms.txCtrl = ctrlEncode (some next) true := by
  simp [ModeSwitch.txCtrl, armed.oweAck]

/-! ### Hearing a settled peer -/

/-- A frame without control bits confirms a settled end. -/
theorem Solid.heard (solid : ms.Solid mode) (isInitiator : Bool) :
    ms.afterRecv 0 isInitiator = ms := by
  have silent : ms.afterRecv 0 isInitiator = { ms with probation := false } := rfl
  rw [silent, ← solid.probation]

/-- A request for another mode arms a responder, settled or on probation. -/
theorem armed_of_request (armed : ms.armed = none) (apply : ms.apply = none)
    (target : ms.target = none) (current : ms.current = mode) (valid : next < modeCount)
    (other : next ≠ mode) :
    (ms.afterRecv (ctrlEncode (some next) false) false).Armed mode next := by
  have asked : ms.afterRecv (ctrlEncode (some next) false) false =
      { ms with probation := false, oweAck := some next, armed := some next } := by
    simp [afterRecv, valid, current, other, armed]
  rw [asked]
  exact ⟨current, target, rfl, apply, rfl, rfl⟩

/-- An ACK moves the initiator exactly when it answers the request that is out. -/
theorem Solid.acknowledged (solid : ms.Solid mode) (valid : next < modeCount) :
    (ms.target = some next ∧
        (ms.afterRecv (ctrlEncode (some next) true) true).Pending mode next) ∨
      (ms.target ≠ some next ∧ ms.afterRecv (ctrlEncode (some next) true) true = ms) := by
  by_cases asked : ms.target = some next
  · have accepted : ms.afterRecv (ctrlEncode (some next) true) true =
        { ms with probation := false, apply := some next, target := none } := by
      simp [afterRecv, valid, asked]
    refine Or.inl ⟨asked, ?_⟩
    rw [accepted]
    exact ⟨solid.current, rfl, solid.armed, rfl, solid.oweAck, rfl⟩
  · refine Or.inr ⟨asked, ?_⟩
    have ignored : ms.afterRecv (ctrlEncode (some next) true) true =
        { ms with probation := false } := by
      simp [afterRecv, valid, Ne.symm asked]
    rw [ignored, ← solid.probation]

end ModeSwitch

end LoraSerial
