import LoraSerial.Device.ModeControl
import LoraSerial.LinkLayer.Admission

/-!
Owns the receive loops of both turn functions: which frames of the RX ring reach the
link, when a turn calls `AfterRecv`, and with what. Host commands run inside the waits
of a turn, so every action may come between two frames. Deadlines are not modelled: a
wait may end at any time. What a turn transmits is not part of it.
-/

namespace LoraSerial.Device

open LinkLayer Library.Run

/-- `FrameRing<kRxRingSlots>` holds one frame less than it has slots. -/
def rxRingSlots : Nat := 16

def discMagic : Bytes := [0x4C, 0x52, 0x44, 0x31]
def discFrameLen : Nat := 10
def hsMagic : Bytes := [0xA5, 0x53, 0x4B, 0x31]
def hsFrameLen : Nat := 37

/-- Whether `DiscHandleRx` takes the frame; without `MAC_ROLE` it takes none. -/
def discHandleRx (macRole : Bool) (rx : Bytes) : Bool :=
  macRole && rx.length == discFrameLen && rx.take 4 == discMagic

/-- Whether `SessionHandleRx` takes the frame, given `FEAT_FS`. -/
def sessionTakes (fs : Bool) (rx : Bytes) : Bool :=
  fs && rx.length == hsFrameLen && rx.take 4 == hsMagic

/-- A frame in the RX ring, and what the chip ran when it was received. -/
structure Arrival where
  bytes : Bytes
  phy : Phy
deriving DecidableEq

/-- What the link went through in a turn: `OnRx` on a frame, or `Init` or `NewSession`. -/
inductive TurnEvent (RING : Nat) where
  | heard (link : Link RING) (frame : Arrival)
  | restarted

/-- One pass through a receive loop. `events` are newest first; the source keeps no such
record. For the responder `gotFrame` says that its first frame has been heard. -/
structure Turn (RING : Nat) where
  isInitiator : Bool
  gotFrame : Bool
  events : List (TurnEvent RING)

/-- One board, as far as its receive loop reaches. -/
structure Listener (RING : Nat) where
  node : Node
  link : Link RING
  staticKey : Key
  ring : List Arrival
  turn : Option (Turn RING)

/-- `discard` is a frame taken by pairing, role election or the handshake. `rekey` is any
write to `g_link_key` or `g_static_key`. -/
inductive ListenerAction where
  | reboot (built saved : PhyConfig) (c : Config) (staticKey : Key)
  | arrive (bytes : Bytes)
  | discard
  | node (action : NodeAction)
  | call (op : Op)
  | rekey (linkKey staticKey : Key)
  | listen (isInitiator : Bool)
  | take (fs : Bool)
  | timeout

/-- How the receive loop goes on: it listens, returns from the turn, or leaves to
`AfterRecv`. -/
inductive Outcome where
  | listens
  | returns
  | leaves
deriving DecidableEq

namespace Listener

variable {RING : Nat}

def boot (built saved : PhyConfig) (c : Config) (staticKey : Key) : Listener RING where
  node := .setup built saved
  link := (Link.zeroed c).init c
  staticKey := staticKey
  ring := []
  turn := none

/-- The link reads its key through a pointer. -/
def setLinkKey (l : Listener RING) (key : Key) : Listener RING :=
  { l with link := { l.link with cfg := { l.link.cfg with key := l.link.cfg.key.map fun _ => key } } }

/-- The radio task: a full ring drops the frame. -/
def push (l : Listener RING) (bytes : Bytes) : Listener RING :=
  if l.ring.length + 1 < rxRingSlots then
    { l with ring := l.ring ++ [{ bytes := bytes, phy := l.node.radio.phy }] }
  else l

/-- `AfterRecv` and the reboot have places of their own. -/
def nodeStep (l : Listener RING) : NodeAction → Listener RING
  | .heard _ _ | .reboot _ _ => l
  | action => { l with node := l.node.step action }

/-- The link calls outside the receive loop; `OnRx` is not among them. -/
def callStep (heatshrink : Heatshrink) (l : Listener RING) : Op → Listener RING
  | .onRx _ => l
  | op =>
      { l with
        link := l.link.apply heatshrink op
        turn := l.turn.map fun turn =>
          if op.restarts then { turn with events := .restarted :: turn.events } else turn }

/-- The frame goes to the link; then the two edges are taken, and a restarted peer ends
the session. -/
def hear (heatshrink : Heatshrink) (l : Listener RING) (turn : Turn RING) (frame : Arrival) :
    Listener RING × Outcome :=
  let result := l.link.onRx heatshrink frame.bytes
  let reset := result.link.takeValidRx.2.takePeerReset
  let heard := { l with
    link := reset.2
    turn := some { turn with gotFrame := true, events := .heard l.link frame :: turn.events } }
  (if reset.1 then heard.setLinkKey l.staticKey else heard,
    if result.burstEnd then .leaves else .listens)

/-- One frame off the ring. The responder's first wait and its later ones treat a beacon
differently. -/
def takeFrame (heatshrink : Heatshrink) (macRole fs : Bool) (l : Listener RING) (turn : Turn RING)
    (frame : Arrival) : Listener RING × Outcome :=
  if discHandleRx macRole frame.bytes then
    (l, if turn.isInitiator || turn.gotFrame then .listens else .returns)
  else if sessionTakes fs frame.bytes then (l, if turn.isInitiator then .listens else .returns)
  else l.hear heatshrink turn frame

/-- The board after an action, up to where a turn calls `AfterRecv`. -/
def turnStep (heatshrink : Heatshrink) (macRole : Bool) (l : Listener RING) :
    ListenerAction → Listener RING × Outcome
  | .reboot built saved c staticKey => (.boot built saved c staticKey, .listens)
  | .arrive bytes => (l.push bytes, .listens)
  | .discard => ({ l with ring := l.ring.tail }, .listens)
  | .node action => (l.nodeStep action, .listens)
  | .call op => (l.callStep heatshrink op, .listens)
  | .rekey linkKey staticKey => ({ l.setLinkKey linkKey with staticKey := staticKey }, .listens)
  | .listen isInitiator =>
      match l.turn with
      | some _ => (l, .listens)
      | none =>
          ({ l with turn := some { isInitiator := isInitiator, gotFrame := false, events := [] } },
            .listens)
  | .take fs =>
      match l.turn, l.ring with
      | some turn, frame :: rest =>
          { l with ring := rest }.takeFrame heatshrink macRole fs turn frame
      | _, _ => (l, .listens)
  | .timeout =>
      match l.turn with
      | some turn => (l, if turn.gotFrame then .leaves else .returns)
      | none => (l, .listens)

/-- `AfterRecv(g_link.CtrlRx(), is_initiator, millis())` -/
def afterRecv (l : Listener RING) : Listener RING :=
  match l.turn with
  | none => l
  | some turn =>
      { l with
        node := { l.node with ms := l.node.ms.afterRecv l.link.rxCtrl turn.isInitiator }
        turn := none }

def step (heatshrink : Heatshrink) (macRole : Bool) (l : Listener RING) (action : ListenerAction) :
    Listener RING :=
  match l.turnStep heatshrink macRole action with
  | (next, .listens) => next
  | (next, .returns) => { next with turn := none }
  | (next, .leaves) => next.afterRecv

end Listener

/-! ### What a turn may believe -/

namespace TurnEvent

variable {RING : Nat}

/-- The frame, if `OnRx` accepted it. -/
def accepted (heatshrink : Heatshrink) : TurnEvent RING → Option Arrival
  | .heard link frame =>
      if (link.onRx heatshrink frame.bytes).exit = .accepted then some frame else none
  | .restarted => none

/-- The frame, if it was a genuine one for the link as it was. -/
def genuine (heatshrink : Heatshrink) : TurnEvent RING → Option Arrival
  | .heard link frame => if link.genuine heatshrink frame.bytes then some frame else none
  | .restarted => none

theorem accepted_eq_genuine (heatshrink : Heatshrink) :
    (accepted heatshrink : TurnEvent RING → Option Arrival) = genuine heatshrink := by
  funext event
  cases event with
  | heard link frame => simp only [accepted, genuine, Link.accepted_iff_genuine]
  | restarted => rfl

end TurnEvent

namespace Turn

variable {RING : Nat}

def accepted (heatshrink : Heatshrink) (turn : Turn RING) : List Arrival :=
  turn.events.filterMap (TurnEvent.accepted heatshrink)

def genuine (heatshrink : Heatshrink) (turn : Turn RING) : List Arrival :=
  turn.events.filterMap (TurnEvent.genuine heatshrink)

/-- `AfterRecv` with `nib` on the PHY `phy` rests on frames the turn accepted. -/
structure Believes (heatshrink : Heatshrink) (turn : Turn RING) (phy : Phy) (nib : UInt8) :
    Prop where
  fresh : ∃ frame ∈ turn.accepted heatshrink, frame.phy = phy
  own : ∃ frame ∈ turn.accepted heatshrink, ctrlOf frame.bytes = nib

/-- `Init` or `NewSession` came after the last genuine frame. -/
def cutOff (heatshrink : Heatshrink) : List (TurnEvent RING) → Bool
  | [] => false
  | .restarted :: _ => true
  | .heard link frame :: rest => !link.genuine heatshrink frame.bytes && cutOff heatshrink rest

/-- A genuine frame came in on the present PHY; and if the link was restarted after the
last genuine one, some genuine frame carried no control. -/
structure Genuine (heatshrink : Heatshrink) (turn : Turn RING) (phy : Phy) : Prop where
  fresh : ∃ frame ∈ turn.genuine heatshrink, frame.phy = phy
  silent : cutOff heatshrink turn.events = true →
    ∃ frame ∈ turn.genuine heatshrink, ctrlOf frame.bytes = 0

instance (heatshrink : Heatshrink) (turn : Turn RING) (phy : Phy) (nib : UInt8) :
    Decidable (turn.Believes heatshrink phy nib) :=
  decidable_of_iff ((∃ frame ∈ turn.accepted heatshrink, frame.phy = phy) ∧
    ∃ frame ∈ turn.accepted heatshrink, ctrlOf frame.bytes = nib)
    ⟨fun both => ⟨both.1, both.2⟩, fun believes => ⟨believes.fresh, believes.own⟩⟩

instance (heatshrink : Heatshrink) (turn : Turn RING) (phy : Phy) :
    Decidable (turn.Genuine heatshrink phy) :=
  decidable_of_iff ((∃ frame ∈ turn.genuine heatshrink, frame.phy = phy) ∧
    (cutOff heatshrink turn.events = true →
      ∃ frame ∈ turn.genuine heatshrink, ctrlOf frame.bytes = 0))
    ⟨fun both => ⟨both.1, both.2⟩, fun genuine => ⟨genuine.fresh, genuine.silent⟩⟩

/-- What the events of a turn leave in `rx_ctrl_`, if anything. -/
def lastCtrl (heatshrink : Heatshrink) : List (TurnEvent RING) → Option UInt8
  | [] => none
  | .restarted :: _ => some 0
  | .heard link frame :: rest =>
      if link.genuine heatshrink frame.bytes then some (ctrlOf frame.bytes)
      else lastCtrl heatshrink rest

variable {heatshrink : Heatshrink} {turn : Turn RING}

/-- The bits left by a turn with a genuine frame are those of its last genuine frame, or
none after a restart. -/
theorem lastCtrl_cases (heatshrink : Heatshrink) (events : List (TurnEvent RING)) :
    (lastCtrl heatshrink events = none ∧ events.filterMap (TurnEvent.genuine heatshrink) = []) ∨
      (cutOff heatshrink events = true ∧ lastCtrl heatshrink events = some 0) ∨
      (cutOff heatshrink events = false ∧
        ∃ frame ∈ events.filterMap (TurnEvent.genuine heatshrink),
          lastCtrl heatshrink events = some (ctrlOf frame.bytes)) := by
  induction events with
  | nil => exact Or.inl ⟨rfl, rfl⟩
  | cons event rest inductionHypothesis =>
      cases event with
      | restarted => exact Or.inr (Or.inl ⟨rfl, rfl⟩)
      | heard link frame =>
          by_cases genuine : link.genuine heatshrink frame.bytes = true
          · simp [lastCtrl, cutOff, TurnEvent.genuine, genuine]
          · simpa [lastCtrl, cutOff, TurnEvent.genuine, genuine] using inductionHypothesis

/-- With `rx_ctrl_` as the events left it, the two conditions agree. -/
theorem believes_iff {phy : Phy} {nib : UInt8}
    (tracks : ∀ last ∈ lastCtrl heatshrink turn.events, nib = last) :
    turn.Believes heatshrink phy nib ↔ turn.Genuine heatshrink phy := by
  have same : turn.accepted heatshrink = turn.genuine heatshrink := by
    rw [Turn.accepted, Turn.genuine, TurnEvent.accepted_eq_genuine]
  rcases lastCtrl_cases heatshrink turn.events with
    ⟨-, nothing⟩ | ⟨cut, cleared⟩ | ⟨whole, frame, member, carried⟩
  · have empty : turn.genuine heatshrink = [] := nothing
    constructor
    · rintro ⟨⟨frame, member, -⟩, -⟩
      rw [same, empty] at member
      cases member
    · rintro ⟨⟨frame, member, -⟩, -⟩
      rw [empty] at member
      cases member
  · obtain rfl : nib = 0 := tracks 0 cleared
    constructor
    · rintro ⟨fresh, own⟩
      rw [same] at fresh own
      exact ⟨fresh, fun _ => own⟩
    · rintro ⟨fresh, silent⟩
      rw [← same] at fresh silent
      exact ⟨fresh, silent cut⟩
  · obtain rfl : nib = ctrlOf frame.bytes := tracks _ carried
    constructor
    · rintro ⟨fresh, -⟩
      rw [same] at fresh
      exact ⟨fresh, fun cut => absurd (cut.symm.trans whole) (by decide)⟩
    · rintro ⟨fresh, -⟩
      rw [← same] at fresh
      refine ⟨fresh, frame, ?_, rfl⟩
      rw [same]
      exact member

end Turn

namespace Listener

variable {RING : Nat}

/-- Where the action ends a turn with `AfterRecv`, the call rests on what the turn
accepted. -/
def Believes (heatshrink : Heatshrink) (macRole : Bool) (l : Listener RING)
    (action : ListenerAction) : Prop :=
  let reached := l.turnStep heatshrink macRole action
  reached.2 = .leaves → ∀ turn ∈ reached.1.turn,
    turn.Believes heatshrink reached.1.node.radio.phy reached.1.link.rxCtrl

/-- Where the action ends a turn that heard a frame, the turn heard a genuine one. -/
def HearsGenuine (heatshrink : Heatshrink) (macRole : Bool) (l : Listener RING)
    (action : ListenerAction) : Prop :=
  let reached := l.turnStep heatshrink macRole action
  reached.2 = .leaves → ∀ turn ∈ reached.1.turn,
    turn.Genuine heatshrink reached.1.node.radio.phy

instance (heatshrink : Heatshrink) (macRole : Bool) (l : Listener RING) (action : ListenerAction) :
    Decidable (l.Believes heatshrink macRole action) :=
  inferInstanceAs (Decidable (_ → _))

/-- `rx_ctrl_` is what the present turn left there. -/
def Tracks (heatshrink : Heatshrink) (l : Listener RING) : Prop :=
  ∀ turn ∈ l.turn, ∀ last ∈ Turn.lastCtrl heatshrink turn.events, l.link.rxCtrl = last

variable {heatshrink : Heatshrink} {l : Listener RING}

theorem tracks_idle (idle : l.turn = none) : l.Tracks heatshrink := by
  intro turn member
  rw [idle] at member
  cases member

theorem Tracks.of_eq {next : Listener RING} (tracks : l.Tracks heatshrink)
    (turn : next.turn = l.turn) (ctrl : next.link.rxCtrl = l.link.rxCtrl) :
    next.Tracks heatshrink := by
  intro now member last carried
  rw [turn] at member
  rw [ctrl]
  exact tracks now member last carried

theorem Tracks.callStep (tracks : l.Tracks heatshrink) (op : Op) :
    (l.callStep heatshrink op).Tracks heatshrink := by
  by_cases own : ∀ input, op ≠ .onRx input
  · have called : l.callStep heatshrink op =
        { l with
          link := l.link.apply heatshrink op
          turn := l.turn.map fun turn =>
            if op.restarts then { turn with events := .restarted :: turn.events } else turn } := by
      cases op with
      | onRx input => exact absurd rfl (own input)
      | _ => rfl
    rw [called]
    intro turn member last carried
    obtain ⟨before, held, rfl⟩ := Option.map_eq_some_iff.mp member
    change (l.link.apply heatshrink op).rxCtrl = last
    rw [Link.rxCtrl_apply heatshrink l.link own]
    by_cases restarts : op.restarts = true
    · rw [if_pos restarts] at carried ⊢
      exact Option.some.inj carried
    · rw [if_neg restarts] at carried ⊢
      exact tracks before held last carried
  · obtain ⟨input, rfl⟩ := not_forall_not.mp own
    exact tracks

theorem Tracks.hear {turn : Turn RING} (tracks : l.Tracks heatshrink)
    (listening : l.turn = some turn) (frame : Arrival) :
    (l.hear heatshrink turn frame).1.Tracks heatshrink := by
  have heard : ({ l with
      link := (l.link.onRx heatshrink frame.bytes).link.takeValidRx.2.takePeerReset.2
      turn := some { turn with gotFrame := true, events := .heard l.link frame :: turn.events } } :
        Listener RING).Tracks heatshrink := by
    intro now member last carried
    cases member
    change (l.link.onRx heatshrink frame.bytes).link.rxCtrl = last
    rw [Link.rxCtrl_onRx]
    simp only [Turn.lastCtrl] at carried
    by_cases genuine : l.link.genuine heatshrink frame.bytes = true
    · rw [if_pos genuine] at carried ⊢
      exact Option.some.inj carried
    · rw [if_neg genuine] at carried ⊢
      exact tracks turn listening last carried
  unfold Listener.hear
  dsimp only
  split
  · exact heard.of_eq rfl rfl
  · exact heard

theorem Tracks.turnStep (tracks : l.Tracks heatshrink) (macRole : Bool) (action : ListenerAction) :
    (l.turnStep heatshrink macRole action).1.Tracks heatshrink := by
  cases action with
  | reboot built saved c staticKey => exact tracks_idle rfl
  | arrive bytes =>
      simp only [Listener.turnStep, push]
      split
      · exact tracks.of_eq rfl rfl
      · exact tracks
  | discard => exact tracks.of_eq rfl rfl
  | node action =>
      cases action with
      | heard | reboot => exact tracks
      | _ => exact tracks.of_eq rfl rfl
  | call op => exact tracks.callStep op
  | rekey linkKey staticKey => exact tracks.of_eq rfl rfl
  | listen isInitiator =>
      simp only [Listener.turnStep]
      split
      · exact tracks
      · intro turn member last carried
        cases member
        cases carried
  | take fs =>
      simp only [Listener.turnStep]
      split
      next turn frame rest listening held =>
        unfold takeFrame
        split
        · exact tracks.of_eq rfl rfl
        · split
          · exact tracks.of_eq rfl rfl
          · have popped : ({ l with ring := rest } : Listener RING).Tracks heatshrink :=
              tracks.of_eq rfl rfl
            exact popped.hear listening frame
      · exact tracks
  | timeout =>
      simp only [Listener.turnStep]
      split <;> exact tracks

theorem Tracks.step (tracks : l.Tracks heatshrink) (macRole : Bool) (action : ListenerAction) :
    (l.step heatshrink macRole action).Tracks heatshrink := by
  have reached := tracks.turnStep macRole action
  unfold Listener.step
  generalize l.turnStep heatshrink macRole action = result at reached
  obtain ⟨next, outcome⟩ := result
  cases outcome with
  | listens => exact reached
  | returns => exact tracks_idle rfl
  | leaves =>
      refine tracks_idle ?_
      simp only [afterRecv]
      split
      next idle => exact idle
      · rfl

theorem Tracks.believes_iff (tracks : l.Tracks heatshrink) (macRole : Bool)
    (action : ListenerAction) :
    l.Believes heatshrink macRole action ↔ l.HearsGenuine heatshrink macRole action := by
  have reached := tracks.turnStep macRole action
  exact forall_congr' fun _ => forall_congr' fun turn => forall_congr' fun member =>
    Turn.believes_iff (reached turn member)

/-- In every run of a board, whatever it hears and whatever its host does: each turn that
calls `AfterRecv` accepted a frame received on the present PHY and passes the bits of a
frame it accepted, if and only if each turn that hears a frame hears a genuine one on
the present PHY, and one without control bits if the link is restarted after it. -/
theorem believes_run_iff (heatshrink : Heatshrink) (macRole : Bool) (built saved : PhyConfig)
    (c : Config) (staticKey : Key) (actions : List ListenerAction) :
    Along (step heatshrink macRole) (Believes heatshrink macRole)
        (boot built saved c staticKey : Listener RING) actions ↔
      Along (step heatshrink macRole) (HearsGenuine heatshrink macRole)
        (boot built saved c staticKey : Listener RING) actions :=
  along_iff (fun _ action tracks => tracks.believes_iff macRole action)
    (fun _ action tracks _ => tracks.step macRole action) (tracks_idle rfl) actions

/-! ### Turns that believe too much -/

/-- A frame of 'more' with the given control bits, from address 2. -/
def plainFrame (dst ctrl : UInt8) : Bytes :=
  [2, dst, ctrl ||| fMore, 0, 0, 3, 0, 0, 0, 0]

/-- The initiator on probation on 'fast' hears a frame for another address. -/
def foreignFrame : List ListenerAction :=
  [.node (.requested 1), .listen true, .arrive (plainFrame 1 0x50), .take false, .timeout,
    .node (.serviced 0), .listen true, .arrive (plainFrame 9 0), .take false, .timeout]

/-- A request from before a PHY change is answered after it. -/
def leftoverFrame : List ListenerAction :=
  [.arrive (plainFrame 1 0x40), .node (.menuMode false ⟨4, by decide⟩), .listen false, .take false,
    .timeout]

/-- The host reconnects inside the turn that hears a request. -/
def reconnectedTurn : List ListenerAction :=
  [.listen false, .arrive (plainFrame 1 0x40), .take false, .call .newSession, .timeout]

/-- A board with the default settings, at address 1 on 'medium'. -/
def plainBoard : Listener 64 :=
  boot ⟨7, 1, 5⟩ ⟨7, 1, 5⟩ Config.default (Vector.replicate 16 0)

theorem believes_fails :
    ¬Along (step Heatshrink.copying true) (Believes Heatshrink.copying true) plainBoard
        foreignFrame ∧
      ¬Along (step Heatshrink.copying true) (Believes Heatshrink.copying true) plainBoard
        leftoverFrame ∧
      ¬Along (step Heatshrink.copying true) (Believes Heatshrink.copying true) plainBoard
        reconnectedTurn ∧
      (foreignFrame.dropLast.foldl (step Heatshrink.copying true) plainBoard).node.ms.probation =
        true ∧
      (foreignFrame.foldl (step Heatshrink.copying true) plainBoard).node.ms.probation = false := by
  decide

end Listener

end LoraSerial.Device
