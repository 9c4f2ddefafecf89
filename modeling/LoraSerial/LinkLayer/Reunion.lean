import LoraSerial.LinkLayer.Delivery

/-!
Owns the world after one end of a linked pair restarts in a new epoch, in its two
phases. Until the peer hears the new epoch it keeps sending frames of the old session
and the restarted end has received nothing; afterwards one direction of the protocol
runs behind what is left of the old session. A step keeps the phase or leads from
the first to the second, as long as the restarted end buffers no frame of the old
session. Does not own how a restart comes about.
-/

namespace LoraSerial.LinkLayer

open Library
open Library.SelectiveRepeat (State)

/-! ### An end that has received nothing -/

namespace Link

variable {RING : Nat}

/-- A frame that a link which has received nothing buffers: it passes the filter,
authenticates, and its sequence byte lies in the first window. -/
def buffers (heatshrink : Heatshrink) (link : Link RING) (input : Bytes) : Bool :=
  match parseHeader input with
  | none => false
  | some (h, body) =>
      !link.filters h && hasFlag h.flags fData && h.seq.toNat < maxWin &&
        match ((link.trackEpoch h.epoch).authenticate heatshrink input h body).2 with
        | .ok (some _) => true
        | _ => false

theorem drainInOrder_of_canDrain {link : Link RING} (stopped : link.canDrain = false) :
    link.drainInOrder = link := by
  rw [drainInOrder, maxWin, drainLoop, stopped]
  rfl

theorem canDrain_of_empty {link : Link RING} (empty : ∀ slot, (link.rx slot).received = false) :
    link.canDrain = false := by
  rw [canDrain, holds, empty]
  rfl

theorem storeFrame_none (link : Link RING) (seq : UInt8) : link.storeFrame seq none = link := by
  rw [storeFrame]
  split <;> rfl

end Link

namespace Quiet

variable {R : Nat} {heatshrink : Heatshrink} {e : End R}

theorem of_receiveView (quiet : Quiet e) {other : End R}
    (view : other.link.receiveView = e.link.receiveView) (read : other.read = e.read) :
    Quiet other := by
  simp only [Link.receiveView, Prod.mk.injEq] at view
  obtain ⟨slots, next, ring⟩ := view
  exact {
    next := next.trans quiet.next
    empty := fun slot => by
      rw [slots]
      exact quiet.empty slot
    nothing := by
      rw [read, ring]
      exact quiet.nothing }

/-- Calls alone receive nothing. -/
theorem call (quiet : Quiet e) (valid : e.link.Valid) (c : Call) :
    Quiet (e.call heatshrink c) := by
  cases c with
  | write d =>
      obtain ⟨ring, written⟩ := e.link.write_link d
      exact quiet.of_receiveView (by rw [End.call, written]; rfl) rfl
  | read max =>
      obtain ⟨ring, wellFormed, contents, left⟩ := Link.readLoop_spec max e.link valid.rRing
      obtain ⟨unread, none⟩ := List.append_eq_nil_iff.mp quiet.nothing
      rw [none] at contents
      obtain ⟨nothing, drained⟩ := List.append_eq_nil_iff.mp contents.symm
      have idle : (e.link.readLoop max).2.drainInOrder = { e.link with rRing := ring } := by
        rw [left]
        exact Link.drainInOrder_of_canDrain (Link.canDrain_of_empty quiet.empty)
      rw [End.call, Link.read, idle, nothing]
      exact ⟨quiet.next, quiet.empty, by rw [unread, drained]; rfl⟩
  | nextTx cap now =>
      obtain ⟨_, _, _, _, _, _, _, _, _, sent⟩ := e.link.nextTx_link heatshrink cap now
      exact quiet.of_receiveView (by rw [End.call, sent]; rfl) rfl
  | makePoll cap =>
      obtain ⟨ctr, persist, sent⟩ := e.link.encode_link heatshrink cap 0 0 []
      exact quiet.of_receiveView (by rw [End.call, Link.makePoll, sent]; rfl) rfl
  | setTiming | takeGotData | takePeerReset | takeValidRx | setCtrlTx | setAuxTx | beginTurn =>
      exact quiet.of_receiveView rfl rfl

theorem resync (quiet : Quiet e) (epoch : UInt8) :
    Quiet { e with link := e.link.resync epoch } where
  next := rfl
  empty := fun _ => rfl
  nothing := quiet.nothing

/-- A frame that is not buffered is forgotten. -/
theorem hear (quiet : Quiet e) {bytes : Bytes}
    (refused : e.link.buffers heatshrink bytes = false) : Quiet (e.hear heatshrink bytes) := by
  cases parsed : parseHeader bytes with
  | none =>
      refine quiet.of_receiveView ?_ rfl
      simp only [End.hear, Link.onRx, parsed]
  | some pair =>
      obtain ⟨h, body⟩ := pair
      have tracked : Quiet { e with link := e.link.trackEpoch h.epoch } := by
        rcases e.link.trackEpoch_cases h.epoch with ⟨tracked, -⟩ | ⟨tracked, -⟩ <;> rw [tracked]
        · exact quiet.of_receiveView rfl rfl
        · exact quiet.resync h.epoch
      rcases e.link.onRx_cases heatshrink parsed with
        same | ⟨heard, seeded, max, window, denied | ⟨decoded, authentic, accepted⟩⟩
      · exact quiet.of_receiveView (by rw [End.hear, same]) rfl
      · exact tracked.of_receiveView (by rw [End.hear, denied]; rfl) rfl
      · refine tracked.of_receiveView ?_ rfl
        rw [End.hear, accepted, Link.accept, Link.ackProcess_link]
        split
        next carriesData =>
          rw [Link.receiveData]
          split
          next near =>
            have inWindow : h.seq.toNat < maxWin := by
              have next : (e.link.trackEpoch h.epoch).rxNext = 0 := tracked.next
              simpa [next] using near
            cases decoded with
            | some payload =>
                simp [Link.buffers, parsed, heard, carriesData, inWindow, authentic] at refused
            | none =>
                rw [Link.storeFrame_none, Link.drainInOrder_of_canDrain]
                · rfl
                · exact Link.canDrain_of_empty tracked.empty
          next => rfl
        next => rfl

end Quiet

/-! ### The world after a restart -/

/-- `a` is the peer, `b` the end that restarted. The frames `old` are those the peer
sent before it observed the new epoch; they arrive before `a.air`. -/
structure Reunion (A B : Nat) extends World A B where
  old : List Bytes

namespace Reunion

variable {A B : Nat} {heatshrink : Heatshrink}

/-- The peer has recorded the epoch of the restarted end. -/
def Observed (w : Reunion A B) : Prop :=
  w.a.link.peerEpoch = w.b.link.myEpoch

instance (w : Reunion A B) : Decidable w.Observed :=
  inferInstanceAs (Decidable (w.a.link.peerEpoch = w.b.link.myEpoch))

/-- What the peer frames and sends before it observes the new epoch belongs to the
old session. -/
def settle (w : Reunion A B) : Reunion A B :=
  if w.Observed then w
  else { w with a := { w.a with air := [], framed := [] }, old := w.old ++ w.a.air }

def stepPair (heatshrink : Heatshrink) (w : Reunion A B) (action : Action) : Reunion A B :=
  { w with toWorld := w.toWorld.step heatshrink action }.settle

def step (heatshrink : Heatshrink) (w : Reunion A B) : Action → Reunion A B
  | .deliver .a =>
      match w.old with
      | [] => w.stepPair heatshrink (.deliver .a)
      | bytes :: rest => { w with b := w.b.hear heatshrink bytes, old := rest }
  | .lose .a position =>
      if position < w.old.length then { w with old := w.old.eraseIdx position }
      else w.stepPair heatshrink (.lose .a (position - w.old.length))
  | action => w.stepPair heatshrink action

def run (heatshrink : Heatshrink) (w : Reunion A B) (actions : List Action) : Reunion A B :=
  actions.foldl (step heatshrink) w

/-- The restarted end comes back as `link`, with its earlier frames still on the air. -/
def restart (peer : End A) (before : End B) (link : Link B) : Reunion A B where
  a := { peer with air := [], framed := [] }
  b := { End.fresh link with air := before.air }
  old := peer.air

/-- No frame of the old session that the restarted end would buffer arrives. -/
def Clean (heatshrink : Heatshrink) (w : Reunion A B) : Action → Prop
  | .deliver .a =>
      match w.old with
      | [] => True
      | bytes :: _ => w.b.link.buffers heatshrink bytes = false
  | _ => True

instance (w : Reunion A B) (action : Action) : Decidable (w.Clean heatshrink action) := by
  unfold Clean
  split
  · split <;> infer_instance
  · infer_instance

/-- Every action of the run meets the condition in the state it meets. -/
def CleanRun (heatshrink : Heatshrink) (w : Reunion A B) : List Action → Prop
  | [] => True
  | action :: rest =>
      w.Clean heatshrink action ∧ CleanRun heatshrink (w.step heatshrink action) rest

instance decidableCleanRun (heatshrink : Heatshrink) (w : Reunion A B) :
    (actions : List Action) → Decidable (w.CleanRun heatshrink actions)
  | [] => .isTrue trivial
  | action :: rest =>
      have := decidableCleanRun heatshrink (w.step heatshrink action) rest
      inferInstanceAs (Decidable (w.Clean heatshrink action ∧
        (w.step heatshrink action).CleanRun heatshrink rest))

end Reunion

/-! ### Before and after the peer observes the epoch -/

variable {A B : Nat} {heatshrink : Heatshrink}

/-- A frame of another session of the restarted end. -/
def Foreign (epoch : UInt8) (bytes : Bytes) : Prop :=
  ∀ h body, parseHeader bytes = some (h, body) → h.epoch ≠ 0 ∧ h.epoch ≠ epoch

/-- The peer as it will be on observing the epoch. -/
def End.rejoin (peer : End A) (epoch : UInt8) : End A :=
  { peer with link := peer.link.resync epoch, air := [], framed := [] }

theorem Link.Valid.resync {link : Link A} (valid : link.Valid) (epoch : UInt8) :
    (link.resync epoch).Valid :=
  { valid with
    send := SendWindowValid.empty 0
    receive := ReceiveWindowValid.cleared _ _ }

/-- One quiet receiver is as good as another. -/
theorem Flow.receiver_quiet {sender : End A} {receiver other : End B} {s : State}
    (flow : Flow heatshrink sender receiver s) (quiet : Quiet receiver) (otherQuiet : Quiet other)
    (valid : other.link.Valid) (wire : other.link.wireView = receiver.link.wireView)
    (air : other.air = receiver.air) : Flow heatshrink sender other s := by
  refine flow.receiver_congr valid ?_ wire air
  exact {
    next := otherQuiet.next.trans (quiet.next.symm.trans flow.receives.next)
    slot := fun slot received => by
      rw [otherQuiet.empty slot] at received
      cases received
    held := fun n held => by
      have buffered := flow.receives.held n held
      rw [Link.holds, quiet.empty] at buffered
      cases buffered
    out := otherQuiet.nothing.trans (quiet.nothing.symm.trans flow.receives.out) }

/-- The peer before it observes the epoch: only its seal settings matter. -/
theorem Flow.rejoin_congr {peer other : End A} {receiver : End B} {epoch : UInt8} {s : State}
    (flow : Flow heatshrink (peer.rejoin epoch) receiver s) (valid : other.link.Valid)
    (wire : other.link.wireView = peer.link.wireView) :
    Flow heatshrink (other.rejoin epoch) receiver s :=
  flow.sender_congr (valid.resync epoch) (flow.sends.of_sendView rfl) wire rfl rfl

namespace Reunion

/-- The peer has not heard the new epoch: the restarted end has received nothing, and
what it has on the air reports nothing, after frames of its earlier sessions. -/
structure Waiting (heatshrink : Heatshrink) (w : Reunion A B) : Prop where
  unobserved : ¬w.Observed
  linked : w.a.link.peerEpoch ≠ 0
  valid : w.a.link.Valid
  air : w.a.air = []
  framed : w.a.framed = []
  quiet : Quiet w.b
  split : ∃ stale new, w.b.air = stale ++ new ∧
    (∀ bytes ∈ stale, Foreign w.b.link.myEpoch bytes) ∧
    Flows heatshrink (w.a.rejoin w.b.link.myEpoch) { w.b with air := new }

/-- The peer has heard the new epoch: one direction of the protocol, behind what is
left of the old session. -/
structure Joined (heatshrink : Heatshrink) (w : Reunion A B) : Prop where
  observed : w.Observed
  flows : Flows heatshrink w.a w.b
  behind : w.old ≠ [] → Quiet w.b
  known : w.b.link.peerEpoch = 0 ∨ w.b.link.peerEpoch = w.a.link.myEpoch ∨ Quiet w.b

/-- Settling completes the picture of a waiting pair. -/
theorem waiting_settle {w : Reunion A B} (unobserved : ¬w.Observed)
    (linked : w.a.link.peerEpoch ≠ 0) (valid : w.a.link.Valid) (quiet : Quiet w.b)
    (split : ∃ stale new, w.b.air = stale ++ new ∧
      (∀ bytes ∈ stale, Foreign w.b.link.myEpoch bytes) ∧
      Flows heatshrink (w.a.rejoin w.b.link.myEpoch) { w.b with air := new }) :
    w.settle.Waiting heatshrink := by
  rw [settle, if_neg unobserved]
  exact ⟨unobserved, linked, valid, rfl, rfl, quiet, split⟩

theorem settle_of_observed {w : Reunion A B} (observed : w.Observed) : w.settle = w :=
  if_pos observed

end Reunion

/-- What a call puts on the air does not depend on what is there. -/
theorem End.call_air (heatshrink : Heatshrink) (e : End A) (c : Call) :
    ∃ emitted, (e.call heatshrink c).air = e.air ++ emitted ∧
      ∀ air, { e with air := air }.call heatshrink c =
        { e.call heatshrink c with air := air ++ emitted } := by
  cases c with
  | nextTx cap now => exact ⟨_, rfl, fun _ => rfl⟩
  | makePoll cap => exact ⟨_, rfl, fun _ => rfl⟩
  | write | read | setTiming | takeGotData | takePeerReset | takeValidRx | setCtrlTx | setAuxTx
  | beginTurn =>
      exact ⟨[], (List.append_nil _).symm, fun air => by rw [List.append_nil]; rfl⟩

namespace Reunion

namespace Waiting

variable {w : Reunion A B}

/-- The peer calls. -/
theorem call_peer (waiting : w.Waiting heatshrink) (c : Call) :
    (w.stepPair heatshrink (.call .a c)).Waiting heatshrink := by
  obtain ⟨sameEpoch, wire⟩ := w.a.epochs_call heatshrink c
  have valid := End.valid_call waiting.valid heatshrink c
  refine waiting_settle ?_ ?_ valid waiting.quiet ?_
  · change ¬(w.a.call heatshrink c).link.peerEpoch = _
    rw [sameEpoch]
    exact waiting.unobserved
  · change (w.a.call heatshrink c).link.peerEpoch ≠ 0
    rw [sameEpoch]
    exact waiting.linked
  · obtain ⟨stale, new, air, foreign, s, flow⟩ := waiting.split
    exact ⟨stale, new, air, foreign, s, flow.rejoin_congr valid wire⟩

/-- The restarted end calls. -/
theorem call_restarted (waiting : w.Waiting heatshrink) (c : Call) :
    (w.stepPair heatshrink (.call .b c)).Waiting heatshrink := by
  obtain ⟨stale, new, air, foreign, s, flow⟩ := waiting.split
  obtain ⟨emitted, called, elsewhere⟩ := w.b.call_air heatshrink c
  have epoch := w.b.myEpoch_call heatshrink c
  refine waiting_settle ?_ waiting.linked waiting.valid
    (waiting.quiet.call flow.receiver_valid c) ⟨stale, new ++ emitted, ?_, ?_, ?_⟩
  · change ¬w.a.link.peerEpoch = (w.b.call heatshrink c).link.myEpoch
    rw [epoch]
    exact waiting.unobserved
  · change (w.b.call heatshrink c).air = _
    rw [called, air, List.append_assoc]
  · change ∀ bytes ∈ stale, Foreign (w.b.call heatshrink c).link.myEpoch bytes
    rw [epoch]
    exact foreign
  · change Flows heatshrink (w.a.rejoin (w.b.call heatshrink c).link.myEpoch)
      { w.b.call heatshrink c with air := new ++ emitted }
    rw [epoch, ← elsewhere]
    exact flow.call_receiver c

/-- A frame of the old session reaches the restarted end, which does not buffer it. -/
theorem hear_old (waiting : w.Waiting heatshrink) {bytes : Bytes} (rest : List Bytes)
    (refused : w.b.link.buffers heatshrink bytes = false) :
    Waiting heatshrink { w with b := w.b.hear heatshrink bytes, old := rest } := by
  obtain ⟨stale, new, air, foreign, s, flow⟩ := waiting.split
  have quiet := waiting.quiet.hear refused
  have wire := w.b.wireView_hear heatshrink bytes
  have epoch := w.b.myEpoch_hear heatshrink bytes
  refine ⟨?_, waiting.linked, waiting.valid, waiting.air, waiting.framed, quiet,
    stale, new, air, ?_, ?_⟩
  · change ¬w.a.link.peerEpoch = (w.b.hear heatshrink bytes).link.myEpoch
    rw [epoch]
    exact waiting.unobserved
  · change ∀ bytes' ∈ stale, Foreign (w.b.hear heatshrink bytes).link.myEpoch bytes'
    rw [epoch]
    exact foreign
  · change Flows heatshrink (w.a.rejoin (w.b.hear heatshrink bytes).link.myEpoch)
      { w.b.hear heatshrink bytes with air := new }
    rw [epoch]
    exact ⟨s, flow.receiver_quiet (waiting.quiet.of_receiveView rfl rfl)
      (quiet.of_receiveView rfl rfl) (flow.receiver_valid.onRx heatshrink bytes) wire rfl⟩

/-- A frame of the restarted end is lost. -/
theorem lose_restarted (waiting : w.Waiting heatshrink) (position : Nat) :
    (w.stepPair heatshrink (.lose .b position)).Waiting heatshrink := by
  obtain ⟨stale, new, air, foreign, s, flow⟩ := waiting.split
  refine waiting_settle waiting.unobserved waiting.linked waiting.valid
    (waiting.quiet.of_receiveView rfl rfl) ?_
  change ∃ stale new, w.b.air.eraseIdx position = stale ++ new ∧ _
  rw [air, List.eraseIdx_append]
  split
  · exact ⟨stale.eraseIdx position, new, rfl, fun bytes member =>
      foreign bytes ((List.eraseIdx_sublist _ _).subset member), s, flow⟩
  · exact ⟨stale, new.eraseIdx (position - stale.length), rfl, foreign, flow.loseAck _⟩

/-- A frame of an earlier session does not make the peer observe the new epoch. -/
theorem hear_foreign (waiting : w.Waiting heatshrink) {bytes : Bytes} {later new : List Bytes}
    (foreign : ∀ first ∈ bytes :: later, Foreign w.b.link.myEpoch first)
    (flows : Flows heatshrink (w.a.rejoin w.b.link.myEpoch) { w.b with air := new }) :
    (settle { w with
      a := w.a.hear heatshrink bytes, b := { w.b with air := later ++ new } }).Waiting
      heatshrink := by
  have elsewhere : (w.a.hear heatshrink bytes).link.peerEpoch ≠ w.b.link.myEpoch ∧
      (w.a.hear heatshrink bytes).link.peerEpoch ≠ 0 := by
    cases parsed : parseHeader bytes with
    | none =>
        have same : (w.a.hear heatshrink bytes).link = w.a.link := by
          simp only [End.hear, Link.onRx, parsed]
        rw [same]
        exact ⟨waiting.unobserved, waiting.linked⟩
    | some pair =>
        obtain ⟨h, body⟩ := pair
        obtain ⟨positive, other⟩ := foreign bytes List.mem_cons_self h body parsed
        rcases w.a.link.peerEpoch_onRx heatshrink parsed with same | recorded
        · rw [End.hear, same]
          exact ⟨waiting.unobserved, waiting.linked⟩
        · rw [End.hear, recorded]
          exact ⟨other, positive⟩
  obtain ⟨s, flow⟩ := flows
  have valid := waiting.valid.onRx heatshrink bytes
  exact waiting_settle elsewhere.1 elsewhere.2 valid (waiting.quiet.of_receiveView rfl rfl)
    ⟨later, new, rfl, fun first member => foreign first (List.mem_cons_of_mem _ member), s,
      flow.rejoin_congr valid (w.a.wireView_hear heatshrink bytes)⟩

/-- A frame of the new session makes the peer join, unless the address filter stops
it. -/
theorem hear_new (waiting : w.Waiting heatshrink) {bytes : Bytes} {rest : List Bytes}
    (flows : Flows heatshrink (w.a.rejoin w.b.link.myEpoch)
      { w.b with air := bytes :: rest }) :
    (settle { w with
        a := w.a.hear heatshrink bytes, b := { w.b with air := rest } }).Waiting heatshrink ∨
      (settle { w with
        a := w.a.hear heatshrink bytes, b := { w.b with air := rest } }).Joined heatshrink := by
  obtain ⟨s, flow⟩ := flows
  obtain ⟨h, body, parsed, epoch⟩ := flow.epoch_of_reports List.mem_cons_self
  have epoch : h.epoch = w.b.link.myEpoch := epoch
  have changed : h.epoch ≠ w.a.link.peerEpoch := fun same =>
    waiting.unobserved (same.symm.trans epoch)
  rcases Link.onRx_changed heatshrink parsed waiting.linked changed with ignored | heard
  · left
    have same : w.a.hear heatshrink bytes = w.a := by rw [End.hear, ignored]
    rw [same]
    exact waiting_settle waiting.unobserved waiting.linked waiting.valid
      (waiting.quiet.of_receiveView rfl rfl) ⟨[], rest, rfl, by simp, flow.loseAck 0⟩
  · right
    have joined : w.a.hear heatshrink bytes =
        (w.a.rejoin w.b.link.myEpoch).hear heatshrink bytes := by
      simp only [End.hear, End.rejoin, heard, epoch, waiting.air, waiting.framed]
    have recorded : ((w.a.rejoin w.b.link.myEpoch).hear heatshrink bytes).link.peerEpoch =
        w.b.link.myEpoch := by
      rcases (w.a.link.resync w.b.link.myEpoch).peerEpoch_onRx heatshrink parsed with
        same | recorded
      · exact same
      · exact recorded.trans epoch
    have flows := flow.hear_sender rfl (Or.inr rfl)
    have observed : Observed { w with
        a := (w.a.rejoin w.b.link.myEpoch).hear heatshrink bytes
        b := { w.b with air := rest } } := recorded
    rw [joined, settle_of_observed observed]
    exact ⟨recorded, flows, fun _ => waiting.quiet.of_receiveView rfl rfl,
      Or.inr (Or.inr (waiting.quiet.of_receiveView rfl rfl))⟩

/-- The restarted end's oldest frame reaches the peer. -/
theorem hear_peer (waiting : w.Waiting heatshrink) {bytes : Bytes} {rest : List Bytes}
    (onAir : w.b.air = bytes :: rest) :
    (w.stepPair heatshrink (.deliver .b)).Waiting heatshrink ∨
      (w.stepPair heatshrink (.deliver .b)).Joined heatshrink := by
  have delivered : w.toWorld.step heatshrink (.deliver .b) =
      { a := w.a.hear heatshrink bytes, b := { w.b with air := rest } } := by
    simp only [World.step, onAir]
  rw [stepPair, delivered]
  obtain ⟨stale, new, air, foreign, flows⟩ := waiting.split
  rw [onAir] at air
  cases stale with
  | cons first later =>
      obtain ⟨rfl, rfl⟩ := List.cons.inj air
      exact Or.inl (waiting.hear_foreign foreign flows)
  | nil =>
      obtain rfl : bytes :: rest = new := air
      exact waiting.hear_new flows

theorem step (waiting : w.Waiting heatshrink) {action : Action}
    (clean : w.Clean heatshrink action) :
    (w.step heatshrink action).Waiting heatshrink ∨ (w.step heatshrink action).Joined heatshrink := by
  cases action with
  | call side c =>
      cases side with
      | a => exact Or.inl (waiting.call_peer c)
      | b => exact Or.inl (waiting.call_restarted c)
  | deliver sender =>
      cases sender with
      | a =>
          simp only [Clean] at clean
          simp only [Reunion.step]
          split
          next none =>
            simp only [stepPair, World.step, waiting.air]
            exact Or.inl (waiting_settle waiting.unobserved waiting.linked waiting.valid
              waiting.quiet waiting.split)
          next bytes rest onAir =>
            rw [onAir] at clean
            exact Or.inl (waiting.hear_old rest clean)
      | b =>
          cases onAir : w.b.air with
          | nil =>
              simp only [Reunion.step, stepPair, World.step, onAir]
              exact Or.inl (waiting_settle waiting.unobserved waiting.linked waiting.valid
                waiting.quiet waiting.split)
          | cons bytes rest => exact waiting.hear_peer onAir
  | lose sender position =>
      cases sender with
      | a =>
          simp only [Reunion.step]
          split
          · exact Or.inl { waiting with split := waiting.split }
          · exact Or.inl (waiting_settle waiting.unobserved waiting.linked waiting.valid
              waiting.quiet waiting.split)
      | b => exact Or.inl (waiting.lose_restarted position)

end Waiting

namespace Joined

variable {w : Reunion A B}

theorem settled (joined : w.Joined heatshrink) : w.settle.Joined heatshrink := by
  rw [settle_of_observed joined.observed]
  exact joined

/-- A frame of the old session reaches the restarted end, which does not buffer it. -/
theorem hear_old (joined : w.Joined heatshrink) {bytes : Bytes} {rest : List Bytes}
    (behind : w.old = bytes :: rest) (refused : w.b.link.buffers heatshrink bytes = false) :
    Joined heatshrink { w with b := w.b.hear heatshrink bytes, old := rest } := by
  obtain ⟨s, flow⟩ := joined.flows
  have quiet := joined.behind (by rw [behind]; exact List.cons_ne_nil _ _)
  have still := quiet.hear refused
  have wire := w.b.wireView_hear heatshrink bytes
  have observed : Observed { w with b := w.b.hear heatshrink bytes, old := rest } :=
    joined.observed.trans (w.b.myEpoch_hear heatshrink bytes).symm
  exact ⟨observed, ⟨s, flow.receiver_quiet quiet still
    (flow.receiver_valid.onRx heatshrink bytes) wire rfl⟩, fun _ => still, Or.inr (Or.inr still)⟩

/-- A frame of the new session reaches the restarted end. -/
theorem hear_new (joined : w.Joined heatshrink) {bytes : Bytes} {rest : List Bytes}
    (onAir : w.a.air = bytes :: rest) (nothing : w.old = []) :
    Joined heatshrink { w with
      a := { w.a with air := rest }, b := w.b.hear heatshrink bytes } := by
  obtain ⟨s, flow⟩ := joined.flows
  have wire := w.b.wireView_hear heatshrink bytes
  have observed : Observed { w with
      a := { w.a with air := rest }, b := w.b.hear heatshrink bytes } :=
    joined.observed.trans (w.b.myEpoch_hear heatshrink bytes).symm
  obtain ⟨h, body, parsed, epoch⟩ := flow.epoch_of_air (onAir ▸ List.mem_cons_self)
  have known : ∀ {link : Link B}, link.peerEpoch = 0 ∨ link.peerEpoch = h.epoch →
      (link.onRx heatshrink bytes).link.peerEpoch = 0 ∨
        (link.onRx heatshrink bytes).link.peerEpoch = w.a.link.myEpoch := by
    intro link known
    rw [epoch] at known
    rcases link.peerEpoch_onRx heatshrink parsed with same | recorded
    · rw [same]
      exact known
    · exact Or.inr (recorded.trans epoch)
  by_cases recorded : w.b.link.peerEpoch = 0 ∨ w.b.link.peerEpoch = h.epoch
  · refine ⟨observed, flow.hear_receiver onAir (epoch ▸ recorded),
      fun behind => absurd nothing behind, ?_⟩
    exact (known recorded).imp id Or.inl
  · -- the restarted end has another epoch of the peer on record, but has received nothing
    rw [not_or] at recorded
    have quiet : Quiet w.b := by
      rcases joined.known with zero | same | quiet
      · exact absurd zero recorded.1
      · exact absurd (same.trans epoch.symm) recorded.2
      · exact quiet
    rcases Link.onRx_changed heatshrink parsed recorded.1 (Ne.symm recorded.2) with
      ignored | heard
    · have same : w.b.hear heatshrink bytes = w.b := by rw [End.hear, ignored]
      have lost := flow.loseData 0
      rw [onAir] at lost
      rw [same]
      exact ⟨joined.observed, lost, fun behind => absurd nothing behind, Or.inr (Or.inr quiet)⟩
    · have rejoined : w.b.hear heatshrink bytes =
          End.hear heatshrink { w.b with link := w.b.link.resync h.epoch } bytes := by
        rw [End.hear, heard]
        rfl
      have flow := flow.receiver_quiet quiet (quiet.resync h.epoch)
        (flow.receiver_valid.resync h.epoch) rfl rfl
      have flows := flow.hear_receiver onAir (Or.inr epoch)
      rw [rejoined] at observed ⊢
      exact ⟨observed, flows, fun behind => absurd nothing behind,
        (known (Or.inr rfl)).imp id Or.inl⟩

theorem call_peer (joined : w.Joined heatshrink) (inverts : heatshrink.Inverts) (c : Call) :
    Joined heatshrink { w with a := w.a.call heatshrink c } := by
  obtain ⟨s, flow⟩ := joined.flows
  have sameEpoch := (w.a.epochs_call heatshrink c).1
  have own := w.a.myEpoch_call heatshrink c
  refine ⟨sameEpoch.trans joined.observed, flow.call_sender inverts c, joined.behind, ?_⟩
  change _ ∨ _ = (w.a.call heatshrink c).link.myEpoch ∨ _
  rw [own]
  exact joined.known

theorem call_restarted (joined : w.Joined heatshrink) (c : Call) :
    Joined heatshrink { w with b := w.b.call heatshrink c } := by
  obtain ⟨s, flow⟩ := joined.flows
  have sameEpoch := (w.b.epochs_call heatshrink c).1
  have own := w.b.myEpoch_call heatshrink c
  have quiet : Quiet w.b → Quiet (w.b.call heatshrink c) := fun quiet =>
    quiet.call flow.receiver_valid c
  refine ⟨joined.observed.trans own.symm, flow.call_receiver c,
    fun behind => quiet (joined.behind behind), ?_⟩
  change (w.b.call heatshrink c).link.peerEpoch = 0 ∨ (w.b.call heatshrink c).link.peerEpoch = _ ∨ _
  rw [sameEpoch]
  exact joined.known.imp id (Or.imp id quiet)

/-- The restarted end's oldest frame reaches the peer. -/
theorem hear_peer (joined : w.Joined heatshrink) {bytes : Bytes} {rest : List Bytes}
    (onAir : w.b.air = bytes :: rest) :
    Joined heatshrink { w with
      a := w.a.hear heatshrink bytes, b := { w.b with air := rest } } := by
  obtain ⟨s, flow⟩ := joined.flows
  obtain ⟨h, body, parsed, epoch⟩ := flow.epoch_of_reports (onAir ▸ List.mem_cons_self)
  have observed : Observed { w with
      a := w.a.hear heatshrink bytes, b := { w.b with air := rest } } := by
    rcases w.a.link.peerEpoch_onRx heatshrink parsed with same | recorded
    · exact same.trans joined.observed
    · exact recorded.trans epoch
  have own := w.a.myEpoch_hear heatshrink bytes
  refine ⟨observed, flow.hear_sender onAir (Or.inr joined.observed),
    fun behind => (joined.behind behind).of_receiveView rfl rfl, ?_⟩
  change _ ∨ _ = (w.a.hear heatshrink bytes).link.myEpoch ∨ _
  rw [own]
  exact joined.known.imp id (Or.imp id fun quiet => quiet.of_receiveView rfl rfl)

theorem lose_peer (joined : w.Joined heatshrink) (position : Nat) :
    Joined heatshrink { w with a := { w.a with air := w.a.air.eraseIdx position } } :=
  { joined with flows := joined.flows.elim fun _ flow => flow.loseData position }

theorem lose_restarted (joined : w.Joined heatshrink) (position : Nat) :
    Joined heatshrink { w with b := { w.b with air := w.b.air.eraseIdx position } } :=
  ⟨joined.observed, joined.flows.elim fun _ flow => flow.loseAck position,
    fun behind => (joined.behind behind).of_receiveView rfl rfl,
    joined.known.imp id (Or.imp id fun quiet => quiet.of_receiveView rfl rfl)⟩

theorem step (joined : w.Joined heatshrink) (inverts : heatshrink.Inverts) {action : Action}
    (clean : w.Clean heatshrink action) : (w.step heatshrink action).Joined heatshrink := by
  cases action with
  | call side c =>
      cases side with
      | a => exact (joined.call_peer inverts c).settled
      | b => exact (joined.call_restarted c).settled
  | deliver sender =>
      cases sender with
      | a =>
          simp only [Clean] at clean
          simp only [Reunion.step]
          split
          next nothing =>
            cases onAir : w.a.air with
            | nil =>
                simp only [stepPair, World.step, onAir]
                exact joined.settled
            | cons bytes rest =>
                simp only [stepPair, World.step, onAir]
                exact (joined.hear_new onAir nothing).settled
          next bytes rest behind =>
            rw [behind] at clean
            exact joined.hear_old behind clean
      | b =>
          cases onAir : w.b.air with
          | nil =>
              simp only [Reunion.step, stepPair, World.step, onAir]
              exact joined.settled
          | cons bytes rest =>
              simp only [Reunion.step, stepPair, World.step, onAir]
              exact (joined.hear_peer onAir).settled
  | lose sender position =>
      cases sender with
      | a =>
          simp only [Reunion.step]
          split
          next inside =>
            refine { joined with behind := fun _ => joined.behind fun nothing => ?_ }
            rw [nothing] at inside
            exact absurd inside (Nat.not_lt_zero _)
          · exact (joined.lose_peer _).settled
      | b => exact (joined.lose_restarted position).settled

end Joined

end Reunion

end LoraSerial.LinkLayer
