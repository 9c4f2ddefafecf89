import LoraSerial.LinkLayer.FlowReceive

/-!
Owns reliable in-order delivery between two initialised ends over a channel that is
FIFO in each direction and may lose any frame: bytes arrive as a prefix of what was
written, a frame leaves the send window only when the peer has it, and the receive
ring never drops a byte. One step of the world is a call at one end, an arrival or a
loss.
-/

namespace LoraSerial.LinkLayer

open Library Library.SequenceNumber
open Library.SelectiveRepeat (State Data Ack Step)

/-! ### No byte is dropped silently -/

namespace Link

variable {RING : Nat}

theorem rDropped_drainInOrder {link : Link RING} (valid : link.rRing.WellFormed) :
    link.drainInOrder.rDropped = link.rDropped := by
  have drained : link.drainInOrder.rRing.WellFormed ∧
      link.drainInOrder.rDropped = link.rDropped := by
    refine drainInOrder_induction
      (motive := fun drained => drained.rRing.WellFormed ∧ drained.rDropped = link.rDropped)
      (fun drained ready ⟨valid, same⟩ => ?_) ⟨valid, rfl⟩
    obtain ⟨ring, wellFormed, -, result⟩ := drainOne_eq valid ready
    rw [result]
    exact ⟨wellFormed, same⟩
  exact drained.2

theorem rDropped_read {link : Link RING} (valid : link.rRing.WellFormed) (max : Nat) :
    (link.read max).2.rDropped = link.rDropped := by
  obtain ⟨ring, wellFormed, -, left⟩ := readLoop_spec max link valid
  simp only [read, left]
  exact @rDropped_drainInOrder RING { link with rRing := ring } wellFormed

theorem rDropped_receiveData {link : Link RING} (valid : link.rRing.WellFormed) (seq : UInt8)
    (decoded : Option Bytes) : (link.receiveData seq decoded).rDropped = link.rDropped := by
  have stored : (link.storeFrame seq decoded).rRing = link.rRing ∧
      (link.storeFrame seq decoded).rDropped = link.rDropped := by
    rcases link.storeFrame_cases seq decoded with same | ⟨buf, -, -, stored⟩
    · rw [same]
      exact ⟨rfl, rfl⟩
    · rw [stored]
      exact ⟨rfl, rfl⟩
  rw [receiveData]
  split
  · exact (rDropped_drainInOrder (stored.1 ▸ valid)).trans stored.2
  · rfl

theorem rDropped_accept {link : Link RING} (valid : link.rRing.WellFormed) (h : Header)
    (decoded : Option Bytes) : (link.accept h decoded).rDropped = link.rDropped := by
  rw [accept, ackProcess_link]
  split
  · exact @rDropped_receiveData RING { link with
      win := _, baseSeq := _, rxCtrl := _, rxAux := _, gotValidRx := true } valid h.seq decoded
  · rfl

theorem rDropped_onRx {link : Link RING} (valid : link.rRing.WellFormed)
    (heatshrink : Heatshrink) (input : Bytes) :
    (link.onRx heatshrink input).link.rDropped = link.rDropped := by
  cases parsed : parseHeader input with
  | none => simp only [onRx, parsed]
  | some pair =>
      obtain ⟨h, body⟩ := pair
      have tracked : (link.trackEpoch h.epoch).rRing = link.rRing ∧
          (link.trackEpoch h.epoch).rDropped = link.rDropped := by
        rcases link.trackEpoch_cases h.epoch with ⟨tracked, -⟩ | ⟨tracked, -⟩ <;>
          (rw [tracked]; exact ⟨rfl, rfl⟩)
      rcases link.onRx_cases heatshrink parsed with
        same | ⟨-, seeded, max, window, refused | ⟨decoded, -, accepted⟩⟩
      · rw [same]
      · rw [refused]
        exact tracked.2
      · rw [accepted]
        have wellFormed : (link.trackEpoch h.epoch).rRing.WellFormed := tracked.1 ▸ valid
        exact (@rDropped_accept RING { link.trackEpoch h.epoch with
          rxCtrInit := seeded, rxCtrMax := max, rxWindow := window } wellFormed h decoded).trans
            tracked.2

/-- `Write` appends what it accepts to the send queue. -/
theorem contents_write {link : Link RING} (valid : link.sRing.WellFormed) (d : Bytes) :
    (link.write d).2.sRing.contents = link.sRing.contents ++ d.take (link.write d).1 := by
  induction d generalizing link with
  | nil => simp [write]
  | cons byte rest inductionHypothesis =>
      rw [write]
      split
      next room =>
        have later := @inductionHypothesis { link with sRing := link.sRing.push byte }
          (valid.push byte)
        simp only [later, valid.contents_push room, List.append_assoc, List.take_succ_cons,
          List.singleton_append]
      · simp

end Link

/-! ### Each end's account -/

variable {S R : Nat} {heatshrink : Heatshrink}

namespace End

variable {RING : Nat}

/-- Written bytes are framed or queued, in order. -/
def Accounts (e : End RING) : Prop :=
  e.written = e.framed.flatten ++ e.link.sRing.contents

theorem Accounts.call {e : End RING} (accounts : e.Accounts) (valid : e.link.Valid) (c : Call) :
    (e.call heatshrink c).Accounts := by
  unfold Accounts at accounts ⊢
  cases c with
  | write d =>
      simp only [End.call]
      rw [accounts, Link.contents_write valid.sRing, List.append_assoc]
  | read max =>
      obtain ⟨_, _, _, _, _, taken⟩ := e.link.read_link max
      simp only [End.call, taken]
      exact accounts
  | nextTx cap now =>
      obtain ⟨added, fills⟩ := Link.fillWindow_fills valid.sRing
      obtain ⟨ring, next, filled⟩ := fills.result
      have framed : newlyFramed e.link = added.map Frame.raw := by
        rw [newlyFramed, filled, List.drop_left]
      obtain ⟨_, _, _, _, _, _, _, sent, -, -⟩ := e.link.nextTx_filled heatshrink cap now
      simp only [End.call, framed, sent]
      rw [accounts, fills.contents, List.flatten_append, List.append_assoc]
  | makePoll cap =>
      obtain ⟨ctr, persist, sent⟩ := e.link.encode_link heatshrink cap 0 0 []
      simp only [End.call, Link.makePoll, sent]
      exact accounts
  | setTiming | takeGotData | takePeerReset | takeValidRx | setCtrlTx | setAuxTx | beginTurn =>
      exact accounts

theorem Accounts.hear {e : End RING} (accounts : e.Accounts) (bytes : Bytes) :
    (e.hear heatshrink bytes).Accounts := by
  obtain ⟨_, _, _, _, _, _, _, _, _, _, _, _, _, _, _, _, _, heard⟩ :=
    e.link.onRx_link heatshrink bytes
  rw [End.hear, heard]
  exact accounts

theorem rDropped_call {e : End RING} (valid : e.link.Valid) (c : Call) :
    (e.call heatshrink c).link.rDropped = e.link.rDropped := by
  cases c with
  | write d =>
      obtain ⟨ring, written⟩ := e.link.write_link d
      rw [End.call, written]
  | read max => exact Link.rDropped_read valid.rRing max
  | nextTx cap now =>
      obtain ⟨_, _, _, _, _, _, _, _, _, sent⟩ := e.link.nextTx_link heatshrink cap now
      rw [End.call, sent]
  | makePoll cap =>
      obtain ⟨ctr, persist, sent⟩ := e.link.encode_link heatshrink cap 0 0 []
      rw [End.call, Link.makePoll, sent]
  | setTiming | takeGotData | takePeerReset | takeValidRx | setCtrlTx | setAuxTx | beginTurn => rfl

/-- Calls leave both epochs, the key and the tag length alone. -/
theorem epochs_call (heatshrink : Heatshrink) (e : End RING) (c : Call) :
    (e.call heatshrink c).link.peerEpoch = e.link.peerEpoch ∧
      (e.call heatshrink c).link.wireView = e.link.wireView := by
  cases c with
  | write d =>
      obtain ⟨ring, written⟩ := e.link.write_link d
      rw [End.call, written]
      exact ⟨rfl, rfl⟩
  | read max =>
      obtain ⟨_, _, _, _, _, taken⟩ := e.link.read_link max
      rw [End.call, taken]
      exact ⟨rfl, rfl⟩
  | nextTx cap now =>
      obtain ⟨_, _, _, _, _, _, _, _, _, sent⟩ := e.link.nextTx_link heatshrink cap now
      rw [End.call, sent]
      exact ⟨rfl, rfl⟩
  | makePoll cap =>
      obtain ⟨ctr, persist, sent⟩ := e.link.encode_link heatshrink cap 0 0 []
      rw [End.call, Link.makePoll, sent]
      exact ⟨rfl, rfl⟩
  | setTiming | takeGotData | takePeerReset | takeValidRx | setCtrlTx | setAuxTx | beginTurn =>
      exact ⟨rfl, rfl⟩

theorem wireView_hear (heatshrink : Heatshrink) (e : End RING) (bytes : Bytes) :
    (e.hear heatshrink bytes).link.wireView = e.link.wireView := by
  obtain ⟨_, _, _, _, _, _, _, _, _, _, _, _, _, _, _, _, _, heard⟩ :=
    e.link.onRx_link heatshrink bytes
  rw [End.hear, heard]
  rfl

theorem myEpoch_call (heatshrink : Heatshrink) (e : End RING) (c : Call) :
    (e.call heatshrink c).link.myEpoch = e.link.myEpoch :=
  congrArg Prod.snd (e.epochs_call heatshrink c).2

theorem myEpoch_hear (heatshrink : Heatshrink) (e : End RING) (bytes : Bytes) :
    (e.hear heatshrink bytes).link.myEpoch = e.link.myEpoch :=
  congrArg Prod.snd (e.wireView_hear heatshrink bytes)

end End

/-! ### Two ends -/

/-- What one end keeps towards its peer. -/
structure Half (heatshrink : Heatshrink) (dropped : Nat) (e : End S) (peer : End R) : Prop where
  flows : Flows heatshrink e peer
  accounts : e.Accounts
  epoch : e.link.myEpoch ≠ 0
  known : e.link.peerEpoch = 0 ∨ e.link.peerEpoch = peer.link.myEpoch
  dropped : e.link.rDropped = dropped

namespace Half

variable {dropped : Nat} {e : End S} {peer : End R}

theorem valid (half : Half heatshrink dropped e peer) : e.link.Valid :=
  half.flows.elim fun _ flow => flow.sender_valid

theorem call (half : Half heatshrink dropped e peer) (inverts : heatshrink.Inverts) (c : Call) :
    Half heatshrink dropped (e.call heatshrink c) peer where
  flows := half.flows.elim fun _ flow => flow.call_sender inverts c
  accounts := half.accounts.call half.valid c
  epoch := by
    rw [e.myEpoch_call]
    exact half.epoch
  known := by
    rw [(e.epochs_call heatshrink c).1]
    exact half.known
  dropped := (End.rDropped_call half.valid c).trans half.dropped

theorem call_peer (half : Half heatshrink dropped e peer) (c : Call) :
    Half heatshrink dropped e (peer.call heatshrink c) where
  flows := half.flows.elim fun _ flow => flow.call_receiver c
  accounts := half.accounts
  epoch := half.epoch
  known := by
    rw [peer.myEpoch_call]
    exact half.known
  dropped := half.dropped

theorem lose (half : Half heatshrink dropped e peer) (position : Nat) :
    Half heatshrink dropped { e with air := e.air.eraseIdx position } peer :=
  { half with
    flows := half.flows.elim fun _ flow => flow.loseData position
    accounts := half.accounts }

theorem lose_peer (half : Half heatshrink dropped e peer) (position : Nat) :
    Half heatshrink dropped e { peer with air := peer.air.eraseIdx position } :=
  { half with flows := half.flows.elim fun _ flow => flow.loseAck position }

/-- The end's oldest frame reaches its peer. -/
theorem deliver (half : Half heatshrink dropped e peer)
    (known : peer.link.peerEpoch = 0 ∨ peer.link.peerEpoch = e.link.myEpoch) {bytes : Bytes}
    {rest : List Bytes} (onAir : e.air = bytes :: rest) :
    Half heatshrink dropped { e with air := rest } (peer.hear heatshrink bytes) :=
  { half with
    flows := half.flows.elim fun _ flow => flow.hear_receiver onAir known
    accounts := half.accounts
    known := by
      rw [peer.myEpoch_hear]
      exact half.known }

/-- The peer's oldest frame reaches the end. -/
theorem hear (half : Half heatshrink dropped e peer) {bytes : Bytes} {rest : List Bytes}
    (onAir : peer.air = bytes :: rest) :
    Half heatshrink dropped (e.hear heatshrink bytes) { peer with air := rest } where
  flows := half.flows.elim fun _ flow => flow.hear_sender onAir half.known
  accounts := half.accounts.hear bytes
  epoch := by
    rw [e.myEpoch_hear]
    exact half.epoch
  known := by
    obtain ⟨s, flow⟩ := half.flows
    obtain ⟨h, body, parsed, epoch⟩ := flow.epoch_of_reports (onAir ▸ List.mem_cons_self)
    rcases e.link.peerEpoch_onRx heatshrink parsed with same | recorded
    · rw [End.hear, same]
      exact half.known
    · exact Or.inr (recorded.trans epoch)
  dropped := (Link.rDropped_onRx half.valid.rRing heatshrink bytes).trans half.dropped

end Half

/-- Both ends and the two directions between them. -/
structure World (A B : Nat) where
  a : End A
  b : End B

inductive Side where
  | a
  | b
deriving DecidableEq

/-- A call at one end, the arrival of the oldest frame one end has on the air, or the
loss of any of its frames. -/
inductive Action where
  | call (side : Side) (c : Call)
  | deliver (sender : Side)
  | lose (sender : Side) (position : Nat)

namespace World

variable {A B : Nat}

def step (heatshrink : Heatshrink) (w : World A B) : Action → World A B
  | .call .a c => { w with a := w.a.call heatshrink c }
  | .call .b c => { w with b := w.b.call heatshrink c }
  | .deliver .a =>
      match w.a.air with
      | [] => w
      | bytes :: rest => { a := { w.a with air := rest }, b := w.b.hear heatshrink bytes }
  | .deliver .b =>
      match w.b.air with
      | [] => w
      | bytes :: rest => { a := w.a.hear heatshrink bytes, b := { w.b with air := rest } }
  | .lose .a position => { w with a := { w.a with air := w.a.air.eraseIdx position } }
  | .lose .b position => { w with b := { w.b with air := w.b.air.eraseIdx position } }

def run (heatshrink : Heatshrink) (w : World A B) (actions : List Action) : World A B :=
  actions.foldl (step heatshrink) w

/-- Both ends after `Init` on whatever their memories hold. -/
def start (memoryA : Link A) (memoryB : Link B) (configA configB : Config) : World A B where
  a := End.fresh (memoryA.init configA)
  b := End.fresh (memoryB.init configB)

/-- The invariant of a linked pair. -/
structure Linked (heatshrink : Heatshrink) (droppedA droppedB : Nat) (w : World A B) : Prop where
  forth : Half heatshrink droppedA w.a w.b
  back : Half heatshrink droppedB w.b w.a

theorem Linked.step {droppedA droppedB : Nat} {w : World A B}
    (linked : w.Linked heatshrink droppedA droppedB) (inverts : heatshrink.Inverts)
    (action : Action) : (w.step heatshrink action).Linked heatshrink droppedA droppedB := by
  obtain ⟨forth, back⟩ := linked
  cases action with
  | call side c =>
      cases side with
      | a => exact ⟨forth.call inverts c, back.call_peer c⟩
      | b => exact ⟨forth.call_peer c, back.call inverts c⟩
  | deliver sender =>
      cases sender with
      | a =>
          rw [World.step]
          split
          · exact ⟨forth, back⟩
          next onAir => exact ⟨forth.deliver back.known onAir, back.hear onAir⟩
      | b =>
          rw [World.step]
          split
          · exact ⟨forth, back⟩
          next onAir => exact ⟨forth.hear onAir, back.deliver forth.known onAir⟩
  | lose sender position =>
      cases sender with
      | a => exact ⟨forth.lose position, back.lose_peer position⟩
      | b => exact ⟨forth.lose_peer position, back.lose position⟩

theorem Linked.run {droppedA droppedB : Nat} {w : World A B}
    (linked : w.Linked heatshrink droppedA droppedB) (inverts : heatshrink.Inverts)
    (actions : List Action) : (w.run heatshrink actions).Linked heatshrink droppedA droppedB := by
  induction actions generalizing w with
  | nil => exact linked
  | cons action rest inductionHypothesis => exact inductionHypothesis (linked.step inverts action)

end World

/-! ### What the receiver has -/

/-- The receiver delivered frame `index` among its first `delivered` ones, or has it
in its slot. -/
def Has (receiver : Link R) (framed : List Bytes) (delivered index : Nat) : Prop :=
  index < delivered ∨ receiver.holds (UInt8.ofNat index) = true ∧
    framed[index]? = some (receiver.rx (slotOf (UInt8.ofNat index))).buf

/-- What one direction achieves. The frames before the send window are the dropped
ones. -/
structure Delivered (sender : End S) (receiver : End R) : Prop where
  in_order : receiver.read <+: sender.framed.flatten
  window : sender.link.win.map Frame.raw =
    sender.framed.drop (sender.framed.length - sender.link.win.length)
  dropped : ∃ delivered, receiver.link.rxNext = UInt8.ofNat delivered ∧
    receiver.read ++ receiver.link.rRing.contents = (sender.framed.take delivered).flatten ∧
    ∀ index < sender.framed.length - sender.link.win.length,
      Has receiver.link sender.framed delivered index

theorem Flow.delivered {sender : End S} {receiver : End R} {s : State}
    (flow : Flow heatshrink sender receiver s) : Delivered sender receiver := by
  have length := flow.sends.length flow.protocol
  have built := flow.sends.built
  have base : sender.framed.length - sender.link.win.length = s.base := by omega
  refine ⟨?_, ?_, s.delivered, flow.receives.next, flow.receives.out, fun index less => ?_⟩
  · have all : sender.framed.flatten =
        (sender.framed.take s.delivered).flatten ++ (sender.framed.drop s.delivered).flatten := by
      rw [← List.flatten_append, List.take_append_drop]
    rw [all, ← flow.receives.out, List.append_assoc]
    exact List.prefix_append _ _
  · rw [base]
    exact flow.sends.window
  · rw [base] at less
    refine (flow.protocol.has_of_lt_base less).imp id fun held => ?_
    have buffered := flow.receives.held index held
    obtain ⟨above, below⟩ := flow.protocol.held_window index held
    unfold maxWin at below
    exact ⟨buffered, (flow.receives.of_holds flow.protocol buffered (by omega) (by omega)).2⟩

/-! ### From `Init` -/

theorem Link.tagLen_clampConfig_le (c : Config) :
    (Link.clampConfig c).tagLen.toNat ≤ tagMax := by
  simp only [Link.clampConfig]
  split
  · decide
  next inside =>
    rw [not_or, UInt8.lt_iff_toNat_lt] at inside
    exact Nat.le_of_not_lt inside.2

/-- Two initialised ends with one key and tag length, in one direction. -/
theorem Half.start (positiveE : 0 < S) (positiveP : 0 < R) (memory : Link S)
    (memoryPeer : Link R) {config configPeer : Config} (key : configPeer.key = config.key)
    (tagLen : (Link.clampConfig configPeer).tagLen = (Link.clampConfig config).tagLen) :
    Half heatshrink memory.rDropped (End.fresh (memory.init config))
      (End.fresh (memoryPeer.init configPeer)) where
  flows := by
    refine ⟨_, Flow.start (Link.valid_init positiveE memory config)
      (Link.valid_init positiveP memoryPeer configPeer) ?_ (Link.tagLen_clampConfig_le config) rfl
      rfl rfl rfl ⟨rfl, fun _ => rfl, ?_⟩ ?_⟩
    · exact Prod.ext key tagLen
    · exact RingBuffer.contents_clear memoryPeer.rRing
    · exact fun _ member => absurd member List.not_mem_nil
  accounts := (RingBuffer.contents_clear memory.sRing).symm
  epoch := by
    change (if (Link.clampConfig config).epoch ≠ 0 then (Link.clampConfig config).epoch else 1) ≠ 0
    split
    next positive => exact positive
    next => decide
  known := Or.inl rfl
  dropped := rfl

namespace World

variable {A B : Nat}

theorem linked_run_start (inverts : heatshrink.Inverts) (positiveA : 0 < A) (positiveB : 0 < B)
    (memoryA : Link A) (memoryB : Link B) {configA configB : Config}
    (key : configB.key = configA.key)
    (tagLen : (Link.clampConfig configB).tagLen = (Link.clampConfig configA).tagLen)
    (actions : List Action) :
    ((start memoryA memoryB configA configB).run heatshrink actions).Linked heatshrink
      memoryA.rDropped memoryB.rDropped :=
  Linked.run ⟨Half.start positiveA positiveB memoryA memoryB key tagLen,
    Half.start positiveB positiveA memoryB memoryA key.symm tagLen.symm⟩ inverts actions

/-- Between two ends initialised with the same key and tag length, after any
interleaving of calls, arrivals and losses: what one end has read is a prefix of what
the other has written, a frame has left the send window only if the peer delivered or
holds it, and no receive ring has dropped a byte. -/
theorem delivered_run_start (inverts : heatshrink.Inverts) (positiveA : 0 < A)
    (positiveB : 0 < B) (memoryA : Link A) (memoryB : Link B) {configA configB : Config}
    (key : configB.key = configA.key)
    (tagLen : (Link.clampConfig configB).tagLen = (Link.clampConfig configA).tagLen)
    (actions : List Action) :
    let w := (start memoryA memoryB configA configB).run heatshrink actions
    (w.b.read <+: w.a.written ∧ Delivered w.a w.b) ∧
      (w.a.read <+: w.b.written ∧ Delivered w.b w.a) ∧
      w.a.link.rDropped = memoryA.rDropped ∧ w.b.link.rDropped = memoryB.rDropped := by
  intro w
  have linked : w.Linked heatshrink memoryA.rDropped memoryB.rDropped :=
    linked_run_start inverts positiveA positiveB memoryA memoryB key tagLen actions
  obtain ⟨s, forth⟩ := linked.forth.flows
  obtain ⟨t, back⟩ := linked.back.flows
  refine ⟨⟨?_, forth.delivered⟩, ⟨?_, back.delivered⟩, linked.forth.dropped, linked.back.dropped⟩
  · rw [linked.forth.accounts]
    exact forth.delivered.in_order.trans (List.prefix_append _ _)
  · rw [linked.back.accounts]
    exact back.delivered.in_order.trans (List.prefix_append _ _)

/-- An encrypting, compressing end. -/
def pairConfig (addr peer epoch : UInt8) : Config :=
  { Config.default with
    addr := addr
    peer := peer
    epoch := epoch
    compress := true
    encrypt := true
    key := some (Vector.replicate 16 0x5A) }

/-- The first frame is lost, the second arrives early, a retransmission fills the
gap and the ack is lost once. -/
def lossyActions : List Action :=
  [.call .a (.write [1, 2, 3]), .call .a (.nextTx 255 0), .lose .a 0, .call .a (.write [4, 5]),
    .call .a .beginTurn, .call .a (.nextTx 255 10), .deliver .a, .call .b (.nextTx 255 20), .lose .b 0,
    .call .a .beginTurn, .call .a (.nextTx 255 2000), .deliver .a, .call .b (.makePoll 255),
    .deliver .b, .call .b (.read 9)]

def lossyRun : World 64 300 :=
  (start (Link.zeroed Config.default) (Link.zeroed Config.default) (pairConfig 1 2 7)
    (pairConfig 2 1 9)).run Heatshrink.copying lossyActions

theorem delivered_run_start_lossy :
    (lossyRun.b.read <+: lossyRun.a.written ∧ Delivered lossyRun.a lossyRun.b) ∧
      (lossyRun.a.read <+: lossyRun.b.written ∧ Delivered lossyRun.b lossyRun.a) ∧
      lossyRun.a.link.rDropped = 0 ∧ lossyRun.b.link.rDropped = 0 := by
  unfold lossyRun
  exact delivered_run_start Heatshrink.copying_inverts (by decide) (by decide)
    (Link.zeroed Config.default) (Link.zeroed Config.default) (by rfl) (by decide) lossyActions

example : lossyRun.b.read = [1, 2, 3, 4, 5] ∧ lossyRun.a.link.win = [] := by
  decide +kernel

end World

end LoraSerial.LinkLayer
