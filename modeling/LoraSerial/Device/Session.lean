import LoraSerial.Library.Run
import LoraSerial.LinkLayer.X25519
import Mathlib.Data.List.Basic

/-!
Owns the session handshake of two boards with `FEAT_FS` and `FEAT_ENC` on and one static
key: the initiator's attempts, fallbacks and back-offs, the responder's answers, the data
turns in between, resets of either end, and both RX rings, on the initiator's clock. Frames
on the air are lost or end up in the other ring. The frames of the responder's own turns are
left out: at the initiator they can only cause a reset, which is a step.

`gen`, `established`, `answered`, `resets` and the stamps record history that the firmware
does not have.
-/

namespace LoraSerial.Device

open LinkLayer X25519 Library.Run

def hsAttemptMs : UInt32 := 150
def hsMaxAttempts : Nat := 6
def hsRetryMs : UInt32 := 20000
def hsListenMinMs : UInt32 := 400

/-! ### One end's session -/

def deriveSessionKey (staticKey : Key) (myEphPriv peerEphPub initPub respPub : Bytes) : Key :=
  asconKdf16 (staticKey.toList ++ scalarmult myEphPriv peerEphPub ++ initPub ++ respPub)

/-- `g_link_key` and the statics of the handshake. -/
structure Session where
  linkKey : Key
  active : Bool
  started : Bool
  ephPriv : Bytes
deriving DecidableEq

namespace Session

def myPublic (session : Session) : Bytes :=
  scalarmultBase session.ephPriv

def ensureStarted (session : Session) (eph : Bytes) : Session :=
  if session.started then session else { session with ephPriv := eph, started := true }

/-- The transcript puts the initiator's public first. -/
def onPeerPublic (staticKey : Key) (isInitiator : Bool) (session : Session) (peerPub : Bytes) : Key :=
  let initPub := if isInitiator then session.myPublic else peerPub
  let respPub := if isInitiator then peerPub else session.myPublic
  deriveSessionKey staticKey session.ephPriv peerPub initPub respPub

/-- `OnPeerPublic` and `InstallSessionKey`. -/
def install (staticKey : Key) (isInitiator : Bool) (session : Session) (peerPub : Bytes) : Session :=
  { session with linkKey := session.onPeerPublic staticKey isInitiator peerPub, active := true }

def reset (staticKey : Key) (session : Session) : Session :=
  { session with linkKey := staticKey, active := false, started := false }

end Session

/-! ### Frames -/

/-- How many ephemerals the initiator had drawn, and the last of them. -/
structure Stamp where
  gen : Nat
  priv : Bytes
deriving DecidableEq

/-- A RESP: the public it carries, and how often the responder had been reset. -/
structure Answer where
  pub : Bytes
  resets : Nat
deriving DecidableEq

/-- An INIT, or a frame of a data turn: the key it is sealed under, and the RESP behind
the session it belongs to. -/
inductive Body where
  | init (pub : Bytes)
  | data (key : Key) (established : Option Answer)
deriving DecidableEq

structure Sent where
  stamp : Stamp
  body : Body
deriving DecidableEq

/-! ### Two ends -/

/-- Where the initiator is: between passes, waiting `window` ms from `since` on for the RESP
to the INIT of the pass that began at `now`, or in a data turn. -/
inductive HsPhase where
  | idle
  | awaiting (now since window : UInt32)
  | turn
deriving DecidableEq

/-- `clock` is the time since its boot in ms. -/
structure Initiator where
  clock : Nat
  session : Session
  phase : HsPhase
  lastAttempt : UInt32
  backoffUntil : UInt32
  attempts : Nat
  ring : List Answer
  gen : Nat
  established : Option Answer
deriving DecidableEq

structure Responder where
  session : Session
  ring : List Sent
  resets : Nat
  answered : Option Stamp
deriving DecidableEq

structure SessionPair where
  initiator : Initiator
  responder : Responder
deriving DecidableEq

/-- `eph` is what `FillRandom` would give, `airtime` how long an INIT takes, `turnRxMs` what
the mode makes of `turn_rx_ms`. `await` and `turnRx` are the initiator's `Rx` in the handshake
and in a data turn, `expire` the end of the handshake's wait, `take` the responder's `Rx`. -/
inductive SessionAction where
  | tick (ms : Nat)
  | drive (eph : Bytes) (airtime : Nat) (turnRxMs : UInt32) (delivered : Bool)
  | await
  | expire
  | send (delivered : Bool)
  | turnRx
  | endTurn
  | take (eph : Bytes) (delivered : Bool)
  | reset (isInitiator : Bool)
  | reboot (isInitiator : Bool)
deriving DecidableEq

namespace Initiator

def millis (i : Initiator) : UInt32 :=
  UInt32.ofNat i.clock

def stamp (i : Initiator) : Stamp where
  gen := i.gen
  priv := i.session.ephPriv

def ensureStarted (i : Initiator) (eph : Bytes) : Initiator :=
  { i with
    session := i.session.ensureStarted eph
    gen := if i.session.started then i.gen else i.gen + 1 }

/-- `SessionDriveInitiator` up to its wait, and whether it sends an INIT. -/
def drive (i : Initiator) (eph : Bytes) (airtime : Nat) (turnRxMs : UInt32) : Initiator × Bool :=
  if i.session.active then ({ i with phase := .turn }, false)
  else if i.millis < i.backoffUntil then ({ i with phase := .turn }, false)
  else if i.millis - i.lastAttempt < hsAttemptMs then ({ i with phase := .turn }, false)
  else
    ({ i.ensureStarted eph with
        clock := i.clock + airtime
        lastAttempt := i.millis
        phase := .awaiting i.millis (UInt32.ofNat (i.clock + airtime))
          (if hsListenMinMs < turnRxMs then turnRxMs else hsListenMinMs) }, true)

/-- `SessionDriveInitiator` after its wait. -/
def finishDrive (i : Initiator) (now : UInt32) : Initiator :=
  if i.session.active then { i with attempts := 0, phase := .idle }
  else if hsMaxAttempts ≤ i.attempts + 1 then
    { i with attempts := 0, backoffUntil := now + hsRetryMs, phase := .turn }
  else { i with attempts := i.attempts + 1, phase := .idle }

/-- `SessionHandleRx` on a RESP. -/
def handleRx (staticKey : Key) (i : Initiator) (answer : Answer) : Initiator :=
  if i.session.started && !i.session.active then
    { i with
      session := i.session.install staticKey true answer.pub
      established := some answer }
  else i

def await (staticKey : Key) (i : Initiator) : Initiator :=
  match i.phase, i.ring with
  | .awaiting now _ _, answer :: rest =>
      let heard := { i with ring := rest }.handleRx staticKey answer
      if heard.session.active then heard.finishDrive now else heard
  | _, _ => i

/-- An `Rx` times out, or a frame it gave came at the window's end. -/
def expire (i : Initiator) : Initiator :=
  match i.phase with
  | .awaiting now since window =>
      if i.millis - since < window then i else i.finishDrive now
  | _ => i

def turnRx (staticKey : Key) (i : Initiator) : Initiator :=
  match i.phase, i.ring with
  | .turn, answer :: rest => { i with ring := rest }.handleRx staticKey answer
  | _, _ => i

def endTurn (i : Initiator) : Initiator :=
  if i.phase = .turn then { i with phase := .idle } else i

def reset (staticKey : Key) (i : Initiator) : Initiator :=
  { i with session := i.session.reset staticKey, established := none }

/-- The ephemeral is not read before it is drawn again. -/
def reboot (staticKey : Key) (i : Initiator) : Initiator :=
  { i.reset staticKey with
    clock := 0
    phase := .idle
    lastAttempt := 0
    backoffUntil := 0
    attempts := 0
    ring := [] }

end Initiator

namespace Responder

def hear (r : Responder) (delivered : Bool) (sent : Sent) : Responder :=
  if delivered then { r with ring := r.ring ++ [sent] } else r

/-- `SessionHandleRx` on an INIT, up to the RESP. -/
def handleRx (staticKey : Key) (r : Responder) (eph : Bytes) (stamp : Stamp) (pub : Bytes) :
    Responder :=
  { r with
    session := (r.session.ensureStarted eph).install staticKey false pub
    answered := some stamp }

def answer (r : Responder) : Answer where
  pub := r.session.myPublic
  resets := r.resets

def reset (staticKey : Key) (r : Responder) : Responder :=
  { r with session := r.session.reset staticKey, resets := r.resets + 1, answered := none }

def reboot (staticKey : Key) (r : Responder) : Responder :=
  { r.reset staticKey with ring := [] }

end Responder

namespace SessionPair

/-- The responder's loop takes a frame; an INIT is answered. -/
def take (staticKey : Key) (pair : SessionPair) (eph : Bytes) (delivered : Bool) : SessionPair :=
  match pair.responder.ring with
  | [] => pair
  | { stamp := stamp, body := .init pub } :: rest =>
      let responder := { pair.responder with ring := rest }.handleRx staticKey eph stamp pub
      { initiator :=
          if delivered then
            { pair.initiator with ring := pair.initiator.ring ++ [responder.answer] }
          else pair.initiator
        responder := responder }
  | { stamp := _, body := .data _ _ } :: rest =>
      { pair with responder := { pair.responder with ring := rest } }

def step (staticKey : Key) (pair : SessionPair) : SessionAction → SessionPair
  | .tick ms =>
      { pair with initiator := { pair.initiator with clock := pair.initiator.clock + ms } }
  | .drive eph airtime turnRxMs delivered =>
      if pair.initiator.phase = .idle then
        let driven := pair.initiator.drive eph airtime turnRxMs
        { initiator := driven.1
          responder :=
            if driven.2 then
              pair.responder.hear delivered
                { stamp := driven.1.stamp, body := .init driven.1.session.myPublic }
            else pair.responder }
      else pair
  | .await => { pair with initiator := pair.initiator.await staticKey }
  | .expire => { pair with initiator := pair.initiator.expire }
  | .send delivered =>
      if pair.initiator.phase = .turn then
        let sent : Sent :=
          { stamp := pair.initiator.stamp
            body := .data pair.initiator.session.linkKey pair.initiator.established }
        { pair with responder := pair.responder.hear delivered sent }
      else pair
  | .turnRx => { pair with initiator := pair.initiator.turnRx staticKey }
  | .endTurn => { pair with initiator := pair.initiator.endTurn }
  | .take eph delivered => pair.take staticKey eph delivered
  | .reset true => { pair with initiator := pair.initiator.reset staticKey }
  | .reset false => { pair with responder := pair.responder.reset staticKey }
  | .reboot true => { pair with initiator := pair.initiator.reboot staticKey }
  | .reboot false => { pair with responder := pair.responder.reboot staticKey }

/-- Both ends after `Setup`. -/
def start (staticKey : Key) : SessionPair where
  initiator :=
    { clock := 0
      session := { linkKey := staticKey, active := false, started := false, ephPriv := [] }
      phase := .idle, lastAttempt := 0, backoffUntil := 0, attempts := 0, ring := [], gen := 0
      established := none }
  responder :=
    { session := { linkKey := staticKey, active := false, started := false, ephPriv := [] }
      ring := [], resets := 0, answered := none }

/-- A data frame that the responder takes is sealed under the responder's key. -/
def Matches (pair : SessionPair) : SessionAction → Prop
  | .take _ _ =>
      match pair.responder.ring with
      | { stamp := _, body := .data key _ } :: _ => key = pair.responder.session.linkKey
      | _ => True
  | _ => True

/-- A data frame that the responder takes was sent without a session, and the responder has
answered no INIT since its last reset; or it was sent in a session, the last INIT answered
carried the ephemeral of that session, and the RESP behind the session was sent since the
responder's last reset. -/
def Settled (pair : SessionPair) : SessionAction → Prop
  | .take _ _ =>
      match pair.responder.ring with
      | { stamp := _, body := .data _ none } :: _ => pair.responder.answered = none
      | { stamp := stamp, body := .data _ (some answer) } :: _ =>
          answer.resets = pair.responder.resets ∧
            pair.responder.answered.map Stamp.gen = some stamp.gen
      | _ => True
  | _ => True

instance (pair : SessionPair) (action : SessionAction) : Decidable (pair.Matches action) := by
  unfold Matches
  split
  · split <;> infer_instance
  · infer_instance

instance (pair : SessionPair) (action : SessionAction) : Decidable (pair.Settled action) := by
  unfold Settled
  split
  · split <;> infer_instance
  · infer_instance

/-- X25519 commutes on the ephemerals that the two actions give to the boards. -/
def Commutes : SessionAction → SessionAction → Prop
  | .drive a _ _ _, .take b _ => scalarmult a (scalarmultBase b) = scalarmult b (scalarmultBase a)
  | _, _ => True

instance (first second : SessionAction) : Decidable (Commutes first second) := by
  unfold Commutes
  split <;> infer_instance

def KeysCommute (actions : List SessionAction) : Prop :=
  ∀ first ∈ actions, ∀ second ∈ actions, Commutes first second

instance (actions : List SessionAction) : Decidable (KeysCommute actions) :=
  inferInstanceAs (Decidable (∀ first ∈ actions, ∀ second ∈ actions, Commutes first second))

end SessionPair

/-! ### What the ends know of each other -/

/-- The initiator's key, from the RESP behind its session. -/
def initiatorKey (staticKey : Key) (priv : Bytes) : Option Answer → Key
  | none => staticKey
  | some answer => deriveSessionKey staticKey priv answer.pub (scalarmultBase priv) answer.pub

/-- The responder's key, from the INIT it answered last. -/
def responderKey (staticKey : Key) (priv : Bytes) : Option Stamp → Key
  | none => staticKey
  | some stamp =>
      deriveSessionKey staticKey priv (scalarmultBase stamp.priv) (scalarmultBase stamp.priv)
        (scalarmultBase priv)

/-- Not later, and one ephemeral for each generation. -/
def Stamp.Before (first second : Stamp) : Prop :=
  first.gen ≤ second.gen ∧ (first.gen = second.gen → first.priv = second.priv)

theorem Stamp.before_refl (stamp : Stamp) : stamp.Before stamp :=
  ⟨Nat.le_refl _, fun _ => rfl⟩

theorem Stamp.Before.trans {first second third : Stamp} (here : first.Before second)
    (there : second.Before third) : first.Before third := by
  refine ⟨Nat.le_trans here.1 there.1, fun same => ?_⟩
  have left := here.1
  have right := there.1
  exact (here.2 (by omega)).trans (there.2 (by omega))

/-- A RESP sent since the responder's last reset carries its present public. -/
structure Answer.From (r : Responder) (answer : Answer) : Prop where
  past : answer.resets ≤ r.resets
  present : answer.resets = r.resets →
    r.session.started = true ∧ answer.pub = r.session.myPublic

/-- A started responder keeps its public until it is reset. -/
def Responder.Keeps (r next : Responder) : Prop :=
  r.resets < next.resets ∨ next.resets = r.resets ∧
    (r.session.started = true →
      next.session.started = true ∧ next.session.myPublic = r.session.myPublic)

theorem Answer.From.keeps {r next : Responder} {answer : Answer} (sent : answer.From r)
    (keeps : r.Keeps next) : answer.From next := by
  have past := sent.past
  rcases keeps with later | ⟨same, kept⟩
  · exact ⟨by omega, fun present => absurd present (by omega)⟩
  · refine ⟨by omega, fun present => ?_⟩
    obtain ⟨started, pub⟩ := sent.present (present.trans same)
    exact ⟨(kept started).1, pub.trans (kept started).2.symm⟩

/-- The initiator's key is that of its session, and its ephemeral one of `keys`. -/
structure Initiator.Sound (keys : Bytes → Prop) (staticKey : Key) (i : Initiator) : Prop where
  key : i.session.linkKey = initiatorKey staticKey i.session.ephPriv i.established
  active : i.session.active = i.established.isSome
  started : i.established.isSome = true → i.session.started = true
  drawn : i.session.started = true → keys i.session.ephPriv

/-- What a step of the initiator leaves of what it had. -/
structure Initiator.Follows (i next : Initiator) : Prop where
  ring : ∀ answer ∈ next.ring, answer ∈ i.ring
  established : ∀ answer ∈ next.established, answer ∈ i.established ∨ answer ∈ i.ring
  stamp : i.stamp.Before next.stamp

structure Responder.Sound (keys : Bytes → Prop) (staticKey : Key) (r : Responder) : Prop where
  key : r.session.linkKey = responderKey staticKey r.session.ephPriv r.answered
  drawn : r.session.started = true → keys r.session.ephPriv

/-- A frame carries the public of its stamp, or is sealed under the key of its session. -/
structure Sent.Sound (keys : Bytes → Prop) (staticKey : Key) (sent : Sent) : Prop where
  init : ∀ pub, sent.body = .init pub → pub = scalarmultBase sent.stamp.priv
  key : ∀ key established, sent.body = .data key established →
    key = initiatorKey staticKey sent.stamp.priv established
  drawn : ∀ key answer, sent.body = .data key (some answer) → keys sent.stamp.priv

namespace Initiator

variable {keys : Bytes → Prop} {staticKey : Key} {i : Initiator}

/-- A step of the attempt's bookkeeping. -/
theorem Sound.proceed (sound : i.Sound keys staticKey) {next : Initiator}
    (session : next.session = i.session) (established : next.established = i.established)
    (gen : next.gen = i.gen) (ring : ∀ answer ∈ next.ring, answer ∈ i.ring) :
    next.Sound keys staticKey ∧ i.Follows next := by
  have stamp : next.stamp = i.stamp := by
    rw [Initiator.stamp, Initiator.stamp, session, gen]
  refine ⟨⟨?_, ?_, ?_, ?_⟩, ⟨ring, ?_, ?_⟩⟩
  · rw [session, established]
    exact sound.key
  · rw [session, established]
    exact sound.active
  · rw [session, established]
    exact sound.started
  · rw [session]
    exact sound.drawn
  · intro answer member
    rw [established] at member
    exact Or.inl member
  · rw [stamp]
    exact i.stamp.before_refl

theorem Sound.stay (sound : i.Sound keys staticKey) : i.Sound keys staticKey ∧ i.Follows i :=
  sound.proceed rfl rfl rfl fun _ member => member

theorem Sound.drive (sound : i.Sound keys staticKey) {eph : Bytes} (own : keys eph)
    (airtime : Nat) (turnRxMs : UInt32) :
    (i.drive eph airtime turnRxMs).1.Sound keys staticKey ∧
      i.Follows (i.drive eph airtime turnRxMs).1 := by
  unfold Initiator.drive
  split
  · exact sound.proceed rfl rfl rfl fun _ member => member
  next inactive =>
    split
    · exact sound.proceed rfl rfl rfl fun _ member => member
    · split
      · exact sound.proceed rfl rfl rfl fun _ member => member
      · by_cases started : i.session.started = true
        · have same : i.ensureStarted eph = i := by
            simp [Initiator.ensureStarted, Session.ensureStarted, started]
          rw [same]
          exact sound.proceed rfl rfl rfl fun _ member => member
        · -- Without a session the key is the static one, whatever ephemeral is drawn.
          have none : i.established = none := by
            have off := sound.active
            rw [Bool.eq_false_iff.mpr inactive] at off
            exact Option.not_isSome_iff_eq_none.mp (Bool.eq_false_iff.mp off.symm)
          have drawn : i.ensureStarted eph =
              { i with
                session := { i.session with ephPriv := eph, started := true }
                gen := i.gen + 1 } := by
            simp [Initiator.ensureStarted, Session.ensureStarted, started]
          have key := sound.key
          rw [none] at key
          rw [drawn]
          refine ⟨⟨?_, sound.active, fun _ => rfl, fun _ => own⟩,
            ⟨fun _ member => member, fun _ member => Or.inl member, ?_⟩⟩
          · rw [none]
            exact key
          · exact ⟨Nat.le_succ _, fun same => absurd same (Nat.ne_of_lt (Nat.lt_succ_self _))⟩

theorem established_finishDrive (i : Initiator) (now : UInt32) :
    (i.finishDrive now).established = i.established := by
  unfold Initiator.finishDrive
  split
  · rfl
  · split <;> rfl

theorem Sound.finishDrive (sound : i.Sound keys staticKey) (now : UInt32) :
    (i.finishDrive now).Sound keys staticKey ∧ i.Follows (i.finishDrive now) := by
  unfold Initiator.finishDrive
  split
  · exact sound.proceed rfl rfl rfl fun _ member => member
  · split <;> exact sound.proceed rfl rfl rfl fun _ member => member

/-- A RESP off the ring is ignored or begins a session. -/
theorem Sound.handleRx (sound : i.Sound keys staticKey) {answer : Answer} {rest : List Answer}
    (held : i.ring = answer :: rest) :
    ({ i with ring := rest }.handleRx staticKey answer).Sound keys staticKey ∧
      i.Follows ({ i with ring := rest }.handleRx staticKey answer) := by
  have tail : ∀ other ∈ rest, other ∈ i.ring := by
    intro other member
    rw [held]
    exact List.mem_cons_of_mem _ member
  unfold Initiator.handleRx
  split
  next begins =>
    simp only [Bool.and_eq_true, Bool.not_eq_true'] at begins
    refine ⟨⟨rfl, rfl, fun _ => begins.1, sound.drawn⟩, ⟨tail, ?_, i.stamp.before_refl⟩⟩
    intro other taken
    cases taken
    right
    rw [held]
    exact List.mem_cons_self
  · exact sound.proceed rfl rfl rfl tail

theorem Sound.await (sound : i.Sound keys staticKey) :
    (i.await staticKey).Sound keys staticKey ∧ i.Follows (i.await staticKey) := by
  unfold Initiator.await
  split
  next now _ _ answer rest waiting held =>
    obtain ⟨heard, follows⟩ := sound.handleRx held
    dsimp only
    split
    · obtain ⟨finished, after⟩ := heard.finishDrive now
      refine ⟨finished, fun other member => follows.ring other (after.ring other member),
        fun other member => ?_, follows.stamp.trans after.stamp⟩
      rw [established_finishDrive] at member
      exact follows.established other member
    · exact ⟨heard, follows⟩
  · exact sound.stay

theorem Sound.expire (sound : i.Sound keys staticKey) :
    i.expire.Sound keys staticKey ∧ i.Follows i.expire := by
  unfold Initiator.expire
  split
  · split
    · exact sound.stay
    · exact sound.finishDrive _
  · exact sound.stay

theorem Sound.turnRx (sound : i.Sound keys staticKey) :
    (i.turnRx staticKey).Sound keys staticKey ∧ i.Follows (i.turnRx staticKey) := by
  unfold Initiator.turnRx
  split
  next held => exact sound.handleRx held
  · exact sound.stay

theorem Sound.endTurn (sound : i.Sound keys staticKey) :
    i.endTurn.Sound keys staticKey ∧ i.Follows i.endTurn := by
  unfold Initiator.endTurn
  split
  · exact sound.proceed rfl rfl rfl fun _ member => member
  · exact sound.stay

theorem sound_reset (keys : Bytes → Prop) (staticKey : Key) (i : Initiator) :
    (i.reset staticKey).Sound keys staticKey ∧ i.Follows (i.reset staticKey) :=
  ⟨⟨rfl, rfl, nofun, nofun⟩, ⟨fun _ member => member, nofun, i.stamp.before_refl⟩⟩

theorem sound_reboot (keys : Bytes → Prop) (staticKey : Key) (i : Initiator) :
    (i.reboot staticKey).Sound keys staticKey ∧ i.Follows (i.reboot staticKey) :=
  ⟨⟨rfl, rfl, nofun, nofun⟩, ⟨nofun, nofun, i.stamp.before_refl⟩⟩

end Initiator

namespace SessionPair

/-- The last INIT the responder answered, and the frames in its ring. -/
def stamps (pair : SessionPair) : List Stamp :=
  pair.responder.answered.toList ++ pair.responder.ring.map Sent.stamp

/-- Each end and each frame on the way is sound, every RESP the initiator knows is the
responder's, and frames are taken in the order in which they are sent. -/
structure Sound (initiatorKeys responderKeys : Bytes → Prop) (staticKey : Key)
    (pair : SessionPair) : Prop where
  initiator : pair.initiator.Sound initiatorKeys staticKey
  responder : pair.responder.Sound responderKeys staticKey
  sent : ∀ sent ∈ pair.responder.ring, sent.Sound initiatorKeys staticKey
  heard : ∀ answer ∈ pair.initiator.ring, answer.From pair.responder
  established : ∀ answer ∈ pair.initiator.established, answer.From pair.responder
  carried : ∀ sent ∈ pair.responder.ring, ∀ key answer, sent.body = .data key (some answer) →
    answer.From pair.responder
  order : pair.stamps.Pairwise Stamp.Before
  last : ∀ stamp ∈ pair.stamps, stamp.Before pair.initiator.stamp

variable {initiatorKeys responderKeys : Bytes → Prop} {staticKey : Key} {pair : SessionPair}

theorem sound_start (initiatorKeys responderKeys : Bytes → Prop) (staticKey : Key) :
    (start staticKey).Sound initiatorKeys responderKeys staticKey where
  initiator := ⟨rfl, rfl, nofun, nofun⟩
  responder := ⟨rfl, nofun⟩
  sent := nofun
  heard := nofun
  established := nofun
  carried := nofun
  order := List.Pairwise.nil
  last := nofun

theorem Sound.initiator_step (sound : pair.Sound initiatorKeys responderKeys staticKey)
    {next : Initiator} (stepped : next.Sound initiatorKeys staticKey ∧ pair.initiator.Follows next) :
    ({ pair with initiator := next } : SessionPair).Sound initiatorKeys responderKeys staticKey where
  initiator := stepped.1
  responder := sound.responder
  sent := sound.sent
  heard := fun answer member => sound.heard answer (stepped.2.ring answer member)
  established := by
    intro answer member
    rcases stepped.2.established answer member with old | new
    · exact sound.established answer old
    · exact sound.heard answer new
  carried := sound.carried
  order := sound.order
  last := fun stamp member => (sound.last stamp member).trans stepped.2.stamp

/-- A frame sent now is later than all others. -/
theorem Sound.hear (sound : pair.Sound initiatorKeys responderKeys staticKey) {sent : Sent}
    (now : sent.stamp = pair.initiator.stamp) (valid : sent.Sound initiatorKeys staticKey)
    (known : ∀ key answer, sent.body = .data key (some answer) →
      answer ∈ pair.initiator.established) (delivered : Bool) :
    ({ pair with responder := pair.responder.hear delivered sent } : SessionPair).Sound
      initiatorKeys responderKeys staticKey := by
  unfold Responder.hear
  split
  · have stamps : ({ pair with
        responder := { pair.responder with ring := pair.responder.ring ++ [sent] } } :
          SessionPair).stamps = pair.stamps ++ [pair.initiator.stamp] := by
      simp [SessionPair.stamps, now]
    have keeps : pair.responder.Keeps { pair.responder with ring := pair.responder.ring ++ [sent] } :=
      Or.inr ⟨rfl, fun started => ⟨started, rfl⟩⟩
    refine ⟨sound.initiator, ⟨sound.responder.key, sound.responder.drawn⟩, ?_,
      fun answer member => (sound.heard answer member).keeps keeps,
      fun answer member => (sound.established answer member).keeps keeps, ?_, ?_, ?_⟩
    · intro frame member
      rcases List.mem_append.mp member with old | new
      · exact sound.sent frame old
      · rw [List.mem_singleton.mp new]
        exact valid
    · intro frame member key answer body
      rcases List.mem_append.mp member with old | new
      · exact (sound.carried frame old key answer body).keeps keeps
      · rw [List.mem_singleton.mp new] at body
        exact (sound.established answer (known key answer body)).keeps keeps
    · rw [stamps, List.pairwise_append]
      refine ⟨sound.order, List.pairwise_singleton _ _, fun stamp member other last => ?_⟩
      rw [List.mem_singleton.mp last]
      exact sound.last stamp member
    · intro stamp member
      rw [stamps] at member
      rcases List.mem_append.mp member with old | new
      · exact sound.last stamp old
      · rw [List.mem_singleton.mp new]
        exact Stamp.before_refl _
  · exact sound

/-- The responder moves on: it drops frames and keeps its public or is reset. -/
theorem Sound.responder_step (sound : pair.Sound initiatorKeys responderKeys staticKey)
    {next : Responder} (valid : next.Sound responderKeys staticKey)
    (ring : ∀ sent ∈ next.ring, sent ∈ pair.responder.ring)
    (keeps : pair.responder.Keeps next)
    (stamps : (next.answered.toList ++ next.ring.map Sent.stamp).Sublist pair.stamps) :
    ({ pair with responder := next } : SessionPair).Sound initiatorKeys responderKeys
      staticKey where
  initiator := sound.initiator
  responder := valid
  sent := fun frame member => sound.sent frame (ring frame member)
  heard := fun answer member => (sound.heard answer member).keeps keeps
  established := fun answer member => (sound.established answer member).keeps keeps
  carried := fun frame member key answer body =>
    (sound.carried frame (ring frame member) key answer body).keeps keeps
  order := sound.order.sublist stamps
  last := fun stamp member => sound.last stamp (stamps.subset member)

/-- The RESP to an INIT reaches the initiator's ring. -/
theorem Sound.reply (sound : pair.Sound initiatorKeys responderKeys staticKey)
    (started : pair.responder.session.started = true) :
    ({ pair with initiator :=
        { pair.initiator with ring := pair.initiator.ring ++ [pair.responder.answer] } } :
      SessionPair).Sound initiatorKeys responderKeys staticKey := by
  have fresh : pair.responder.answer.From pair.responder := ⟨Nat.le_refl _, fun _ => ⟨started, rfl⟩⟩
  have stepped := sound.initiator
  refine ⟨⟨stepped.key, stepped.active, stepped.started, stepped.drawn⟩, sound.responder, sound.sent,
    ?_, sound.established, sound.carried, sound.order, sound.last⟩
  intro answer member
  rcases List.mem_append.mp member with old | new
  · exact sound.heard answer old
  · rw [List.mem_singleton.mp new]
    exact fresh

theorem Sound.take (sound : pair.Sound initiatorKeys responderKeys staticKey) {eph : Bytes}
    (own : responderKeys eph) (delivered : Bool) :
    (pair.take staticKey eph delivered).Sound initiatorKeys responderKeys staticKey := by
  unfold SessionPair.take
  split
  · exact sound
  next stamp pub rest held =>
    have frame := sound.sent { stamp := stamp, body := .init pub } (by rw [held]; exact .head _)
    obtain rfl : pub = scalarmultBase stamp.priv := frame.init pub rfl
    have started : (pair.responder.session.ensureStarted eph).started = true := by
      unfold Session.ensureStarted
      split
      next already => exact already
      · rfl
    have drawn : responderKeys (pair.responder.session.ensureStarted eph).ephPriv := by
      unfold Session.ensureStarted
      split
      next already => exact sound.responder.drawn already
      · exact own
    have valid : ({ pair.responder with ring := rest }.handleRx staticKey eph stamp
        (scalarmultBase stamp.priv)).Sound responderKeys staticKey :=
      ⟨rfl, fun _ => drawn⟩
    have answered := sound.responder_step valid
      (fun sent member => held ▸ List.mem_cons_of_mem _ member)
      (Or.inr ⟨rfl, fun already => ⟨started, by
        change ((pair.responder.session.ensureStarted eph).install _ _ _).myPublic = _
        rw [Session.ensureStarted, if_pos already]
        rfl⟩⟩)
      (by
        rw [SessionPair.stamps, held]
        exact List.sublist_append_right _ _)
    split
    · exact answered.reply started
    · exact answered
  next stamp key established rest held =>
    refine sound.responder_step ⟨sound.responder.key, sound.responder.drawn⟩
      (fun sent member => held ▸ List.mem_cons_of_mem _ member)
      (Or.inr ⟨rfl, fun started => ⟨started, rfl⟩⟩) ?_
    rw [SessionPair.stamps, held]
    exact (List.Sublist.refl _).append (List.sublist_cons_self _ _)

/-- `initiatorKeys` and `responderKeys` hold of the ephemerals that the action gives. -/
theorem Sound.step (sound : pair.Sound initiatorKeys responderKeys staticKey)
    (action : SessionAction)
    (drives : ∀ eph airtime turnRxMs delivered,
      action = .drive eph airtime turnRxMs delivered → initiatorKeys eph)
    (takes : ∀ eph delivered, action = .take eph delivered → responderKeys eph) :
    (pair.step staticKey action).Sound initiatorKeys responderKeys staticKey := by
  cases action with
  | tick ms =>
      exact sound.initiator_step (sound.initiator.proceed rfl rfl rfl fun _ member => member)
  | drive eph airtime turnRxMs delivered =>
      simp only [SessionPair.step]
      split
      · have stepped := sound.initiator_step
          (sound.initiator.drive (drives eph airtime turnRxMs delivered rfl) airtime turnRxMs)
        split
        · refine stepped.hear rfl ⟨?_, by simp, by simp⟩ (by simp) delivered
          rintro pub ⟨⟩
          rfl
        · exact stepped
      · exact sound
  | await => exact sound.initiator_step sound.initiator.await
  | expire => exact sound.initiator_step sound.initiator.expire
  | send delivered =>
      simp only [SessionPair.step]
      split
      · refine sound.hear rfl ⟨by simp, ?_, ?_⟩ ?_ delivered
        · rintro key established ⟨⟩
          exact sound.initiator.key
        · rintro key answer body
          have established : pair.initiator.established = some answer := (Body.data.inj body).2
          exact sound.initiator.drawn (sound.initiator.started (by rw [established]; rfl))
        · intro key answer body
          exact (Body.data.inj body).2
      · exact sound
  | turnRx => exact sound.initiator_step sound.initiator.turnRx
  | endTurn => exact sound.initiator_step sound.initiator.endTurn
  | take eph delivered => exact sound.take (takes eph delivered rfl) delivered
  | reset isInitiator =>
      cases isInitiator with
      | true => exact sound.initiator_step (Initiator.sound_reset _ _ _)
      | false =>
          exact sound.responder_step ⟨rfl, nofun⟩ (fun _ member => member)
            (Or.inl (Nat.lt_succ_self _)) (List.sublist_append_right _ _)
  | reboot isInitiator =>
      cases isInitiator with
      | true => exact sound.initiator_step (Initiator.sound_reboot _ _ _)
      | false =>
          exact sound.responder_step ⟨rfl, nofun⟩ nofun (Or.inl (Nat.lt_succ_self _))
            (List.nil_sublist _)

/-! ### Where the keys agree -/

/-- Both ends derive one key from each other's ephemerals. -/
theorem keys_agree {staticKey : Key} {a b : Bytes}
    (commutes : scalarmult a (scalarmultBase b) = scalarmult b (scalarmultBase a)) :
    deriveSessionKey staticKey a (scalarmultBase b) (scalarmultBase a) (scalarmultBase b) =
      deriveSessionKey staticKey b (scalarmultBase a) (scalarmultBase a) (scalarmultBase b) := by
  rw [deriveSessionKey, deriveSessionKey, commutes]

theorem Sound.matches (sound : pair.Sound initiatorKeys responderKeys staticKey)
    (commutes : ∀ a b, initiatorKeys a → responderKeys b →
      scalarmult a (scalarmultBase b) = scalarmult b (scalarmultBase a))
    {action : SessionAction} (settled : pair.Settled action) : pair.Matches action := by
  cases action with
  | take eph delivered =>
      simp only [Matches]
      split
      next stamp key established rest held =>
        have member : { stamp := stamp, body := .data key established : Sent } ∈
            pair.responder.ring := by
          rw [held]
          exact .head _
        have frame := sound.sent _ member
        simp only [Settled, held] at settled
        rw [frame.key key established rfl, sound.responder.key]
        cases established with
        | none =>
            rw [settled]
            rfl
        | some answer =>
            obtain ⟨present, latest⟩ := settled
            obtain ⟨started, pub⟩ := (sound.carried _ member key answer rfl).present present
            obtain ⟨answered, last, gen⟩ := Option.map_eq_some_iff.mp latest
            -- The ring is a queue, so one generation is one ephemeral.
            have before : answered.Before stamp := by
              have order := sound.order
              rw [SessionPair.stamps, last, held] at order
              exact (List.pairwise_cons.mp order).1 _ (.head _)
            have same := before.2 gen
            rw [last]
            simp only [initiatorKey, responderKey, pub, Session.myPublic, same]
            exact keys_agree (commutes _ _ (frame.drawn key answer rfl)
              (sound.responder.drawn started))
      · trivial
  | _ => trivial

/-- Over every run of two boards with one static key, whatever is lost, retried, fallen
back from or reset: each data frame that the responder takes is sealed under its key, if
the initiator sent it without a session and the responder has answered no INIT since its
last reset, or if the initiator sent it in a session with the ephemeral of the last INIT
answered, whose RESP was sent since the responder's last reset. -/
theorem keys_match_run (staticKey : Key) (actions : List SessionAction)
    (commutes : KeysCommute actions) :
    Along (step staticKey) (fun pair action => pair.Settled action → pair.Matches action)
      (start staticKey) actions := by
  have start := sound_start
    (fun a => ∃ airtime turnRxMs sent, SessionAction.drive a airtime turnRxMs sent ∈ actions)
    (fun b => ∃ sent, SessionAction.take b sent ∈ actions) staticKey
  refine Along.imp (fun pair action sound _ settled => ?_) (fun pair action sound member => ?_) start
    (along_of_mem fun _ member => member)
  · refine sound.matches ?_ settled
    rintro a b ⟨airtime, turnRxMs, sent, drawn⟩ ⟨replied, answered⟩
    exact commutes _ drawn _ answered
  · refine sound.step action ?_ ?_
    · rintro eph airtime turnRxMs sent rfl
      exact ⟨airtime, turnRxMs, sent, member⟩
    · rintro eph sent rfl
      exact ⟨sent, member⟩

/-- A handshake without loss, and the first data frame of the session. -/
def handshake : List SessionAction :=
  [.tick 200, .drive (List.replicate 32 1) 60 2000 true, .take (List.replicate 32 2) true, .await,
    .tick 200, .drive [] 60 2000 true, .send true, .take [] true]

/-- Six INITs arrive and every RESP is lost, so the next frames go out without a session. -/
def lostAnswer : List SessionAction :=
  [.tick 200] ++
    (List.replicate hsMaxAttempts
      [.drive (List.replicate 32 1) 60 2000 true, .take (List.replicate 32 2) false, .tick 2001,
        .expire]).flatten ++
    [.send true, .take [] true]

/-- AT+FS at the responder ends the session there only. -/
def responderReset : List SessionAction :=
  handshake ++ [.reset false, .send true, .take [] true]

/-- The RESP to the initiator's first INIT comes after the wait, and the INIT of the session
that it begins anew is lost. -/
def staleAnswer : List SessionAction :=
  [.tick 200, .drive (List.replicate 32 1) 60 2000 true, .tick 2001, .expire,
    .take (List.replicate 32 2) true, .reset true, .tick 500,
    .drive (List.replicate 32 3) 60 2000 false, .await, .tick 200, .drive [] 60 2000 true,
    .send true, .take [] true]

theorem handshake_matches :
    Along (step (Vector.replicate 16 0)) Settled (start (Vector.replicate 16 0)) handshake ∧
      Along (step (Vector.replicate 16 0))
        (fun pair action => pair.Settled action → pair.Matches action)
        (start (Vector.replicate 16 0)) handshake :=
  ⟨by decide +kernel, keys_match_run (Vector.replicate 16 0) handshake (by decide +kernel)⟩

/-- Losses and resets alone let the responder take a frame under another key. -/
theorem keys_differ :
    (KeysCommute lostAnswer ∧
        ¬Along (step (Vector.replicate 16 0)) Matches (start (Vector.replicate 16 0)) lostAnswer) ∧
      (KeysCommute responderReset ∧
        ¬Along (step (Vector.replicate 16 0)) Matches (start (Vector.replicate 16 0))
          responderReset) ∧
      KeysCommute staleAnswer ∧
        ¬Along (step (Vector.replicate 16 0)) Matches (start (Vector.replicate 16 0))
          staleAnswer := by
  decide +kernel

end SessionPair

end LoraSerial.Device
