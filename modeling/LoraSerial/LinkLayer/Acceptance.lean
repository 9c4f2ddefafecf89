import LoraSerial.Library.Run
import LoraSerial.LinkLayer.Burst
import LoraSerial.LinkLayer.Reunion
import LoraSerial.LinkLayer.RoundTrip
import LoraSerial.LinkLayer.Sealing

/-!
Owns when the two ends of a linked pair never refuse each other's frames: they are
configured for each other and no frame counter wraps. Then, along every run, each replay
window stays below the counter of the peer, and whatever one end encodes the other
accepts. Does not own what the accepted frames achieve.
-/

namespace LoraSerial.LinkLayer

open Library Library.WordBytes

/-! ### Frames on the air -/

/-- A sealed frame on the air has a counter up to `bound`. -/
def SealedBelow (bound : UInt64) (bytes : Bytes) : Prop :=
  ∀ h body, parseHeader bytes = some (h, body) → hasFlag h.flags fEnc = true →
    loadBe (body.take ctrW) ≤ bound

theorem SealedBelow.mono {low high : UInt64} {bytes : Bytes} (below : SealedBelow low bytes)
    (ordered : low ≤ high) : SealedBelow high bytes :=
  fun h body parsed sealed => UInt64.le_trans (below h body parsed sealed) ordered

namespace Link

variable {RING : Nat} {heatshrink : Heatshrink}

theorem sealedBelow_encode {link : Link RING} {cap : Nat} {flags seq : UInt8} {raw frame : Bytes}
    (base : flags &&& (fData ||| fMore) = flags)
    (encoded : (link.encode heatshrink cap flags seq raw).frame = some frame) :
    SealedBelow (link.encode heatshrink cap flags seq raw).link.txCtr64 frame := by
  intro h body parsed sealed
  rcases link.encode_cases heatshrink cap flags seq raw with
    result | ⟨key, -, result⟩ | ⟨unkeyed, result⟩ <;> rw [result] at encoded ⊢ <;> cases encoded
  · rw [sealFrame_eq, parseHeader_headerBytes] at parsed
    cases parsed
    obtain ⟨persist, counted⟩ := { link with txCtr64 := link.txCtr64 + 1 }.maybePersist_link
    rw [take_sealedBody, show loadBe (storeBe ctrW (link.txCtr64 + 1)) = link.txCtr64 + 1 from
      loadBe_storeBe _, counted]
    exact UInt64.le_refl _
  · rw [parseHeader_headerBytes] at parsed
    cases parsed
    rw [hasFlag_wireHeader _ _ _ _ _ (by decide), hasFlag_packPayload _ _ _ _ (by decide),
      hasFlag_base base (by decide), unkeyed] at sealed
    cases sealed

/-- `sent` hands out a frame encoded from the seal state and the receive window of `link`. -/
inductive Encodes (heatshrink : Heatshrink) (link : Link RING) (sent : TxResult RING)
    (frame : Bytes) : Prop where
  | intro (source : Link RING) (cap : Nat) (flags seq : UInt8) (raw : Bytes)
      (seals : source.sealState = link.sealState)
      (receive : source.receiveView = link.receiveView)
      (base : flags &&& (fData ||| fMore) = flags) (short : raw.length ≤ maxPay)
      (encoded : (source.encode heatshrink cap flags seq raw).frame = some frame)
      (counted : sent.link.txCtr64 = (source.encode heatshrink cap flags seq raw).link.txCtr64)

theorem makePoll_encodes {link : Link RING} {cap : Nat} {frame : Bytes}
    (produced : (link.makePoll heatshrink cap).frame = some frame) :
    link.Encodes heatshrink (link.makePoll heatshrink cap) frame :=
  ⟨link, cap, 0, 0, [], rfl, rfl, by decide, Nat.zero_le _, produced, rfl⟩

theorem nextTx_encodes {link : Link RING} (valid : link.Valid) {cap : Nat} {now : UInt32}
    {frame : Bytes} (produced : (link.nextTx heatshrink cap now).frame = some frame) :
    link.Encodes heatshrink (link.nextTx heatshrink cap now) frame := by
  obtain ⟨ring, win, next, filled⟩ := link.fillWindow_link
  rcases link.nextTx_cases heatshrink cap now with
    ⟨before, f, rest, split, -, -, result⟩ | ⟨-, -, result⟩ | ⟨-, -, result⟩
  · rw [result] at produced ⊢
    refine ⟨link.fillWindow.markSent now f before.length, cap, _, f.seq, f.raw, ?_, ?_, ?_,
      (valid.fillWindow.send.payload f (by simp [split])).2, produced, rfl⟩
    · rw [filled]
      rfl
    · rw [filled]
      rfl
    · split <;> decide
  · rw [result] at produced ⊢
    refine ⟨{ link.fillWindow with ackSentTurn := true, ackPending := false }, cap, 0, 0, [], ?_,
      ?_, by decide, Nat.zero_le _, produced, rfl⟩ <;> rw [filled] <;> rfl
  · rw [result] at produced
    cases produced

theorem Encodes.sealedBelow {link : Link RING} {sent : TxResult RING} {frame : Bytes}
    (encodes : link.Encodes heatshrink sent frame) : SealedBelow sent.link.txCtr64 frame := by
  obtain ⟨source, cap, flags, seq, raw, -, -, base, -, encoded, counted⟩ := encodes
  rw [counted]
  exact sealedBelow_encode base encoded

/-! ### Hearing -/

theorem under_onRx {link : Link RING} {bound : UInt64} (under : link.replayWindow.Under bound)
    {bytes : Bytes} (below : SealedBelow bound bytes) :
    (link.onRx heatshrink bytes).link.replayWindow.Under bound := by
  cases parsed : parseHeader bytes with
  | none =>
      simp only [onRx, parsed]
      exact under
  | some pair =>
      obtain ⟨h, body⟩ := pair
      have tracked : (link.trackEpoch h.epoch).replayWindow.Under bound := by
        rcases link.trackEpoch_cases h.epoch with ⟨tracked, -⟩ | ⟨tracked, -⟩ <;> rw [tracked]
        · exact under
        · exact fun seeded => absurd seeded Bool.false_ne_true
      have opened : ((link.trackEpoch h.epoch).authenticate heatshrink bytes h
          body).1.replayWindow.Under bound := by
        rcases (link.trackEpoch h.epoch).replayWindow_authenticate heatshrink bytes h body with
          same | ⟨sealed, counted⟩
        · rw [same]
          exact tracked
        · rw [counted]
          exact tracked.check (below h body parsed sealed)
      simp only [onRx, parsed]
      split
      · exact under
      · split
        · exact opened
        next decoded _ =>
          have kept := guardState_accept ((link.trackEpoch h.epoch).authenticate heatshrink bytes h
            body).1 h decoded
          rw [show (accept _ h decoded).replayWindow = _ from congrArg (fun kept => kept.2.1) kept]
          exact opened

theorem canDrain_of_receiveView {link other : Link RING}
    (same : other.receiveView = link.receiveView) : other.canDrain = link.canDrain := by
  simp only [receiveView, Prod.mk.injEq] at same
  obtain ⟨slots, next, ring⟩ := same
  simp only [canDrain, holds, slots, next, ring]

/-- Buffering data drains again. -/
theorem canDrain_receiveData {link : Link RING} (valid : link.rRing.WellFormed)
    (stopped : link.canDrain = false) (seq : UInt8) (decoded : Option Bytes) :
    (link.receiveData seq decoded).canDrain = false := by
  rw [receiveData]
  split
  · refine (canDrain_of_receiveView rfl).trans (canDrain_drainInOrder ?_)
    rcases link.storeFrame_cases seq decoded with same | ⟨buf, -, -, stored⟩
    · rw [same]
      exact valid
    · rw [stored]
      exact valid
  · exact (canDrain_of_receiveView rfl).trans stopped

theorem canDrain_accept {link : Link RING} (valid : link.rRing.WellFormed)
    (stopped : link.canDrain = false) (h : Header) (decoded : Option Bytes) :
    (link.accept h decoded).canDrain = false := by
  have view : (ackProcess { link with
      rxCtrl := h.flags &&& ctrlMask, rxAux := h.aux, gotValidRx := true } h.ack
        h.sack).receiveView = link.receiveView := by
    rw [ackProcess_link]
    rfl
  have acked := (canDrain_of_receiveView view).trans stopped
  simp only [receiveView, Prod.mk.injEq] at view
  rw [accept]
  split
  · refine canDrain_receiveData ?_ acked h.seq decoded
    rw [view.2.2]
    exact valid
  · exact acked

theorem canDrain_onRx {link : Link RING} (valid : link.rRing.WellFormed)
    (stopped : link.canDrain = false) (bytes : Bytes) :
    (link.onRx heatshrink bytes).link.canDrain = false := by
  cases parsed : parseHeader bytes with
  | none =>
      simp only [onRx, parsed]
      exact stopped
  | some pair =>
      obtain ⟨h, body⟩ := pair
      have tracked : (link.trackEpoch h.epoch).canDrain = false ∧
          (link.trackEpoch h.epoch).rRing = link.rRing := by
        rcases link.trackEpoch_cases h.epoch with ⟨tracked, -⟩ | ⟨tracked, -⟩ <;> rw [tracked]
        · exact ⟨stopped, rfl⟩
        · exact ⟨canDrain_of_empty fun _ => rfl, rfl⟩
      rcases link.onRx_cases heatshrink parsed with
        same | ⟨-, seeded, max, window, refused | ⟨decoded, -, accepted⟩⟩
      · rw [same]
        exact stopped
      · rw [refused]
        exact tracked.1
      · rw [accepted]
        exact @canDrain_accept RING { link.trackEpoch h.epoch with
          rxCtrInit := seeded, rxCtrMax := max, rxWindow := window } (tracked.2 ▸ valid) tracked.1 h
          decoded

/-! ### Matching ends -/

/-- What two ends must agree on. -/
def peerView (link : Link RING) : UInt8 × UInt8 × Bool × Option Key × UInt8 :=
  (link.cfg.addr, link.cfg.peer, link.cfg.encrypt, link.cfg.key, link.cfg.tagLen)

theorem Matches.congr {PEER : Nat} {sender sender' : Link RING} {receiver receiver' : Link PEER}
    (matching : sender.Matches receiver) (sends : sender'.peerView = sender.peerView)
    (receives : receiver'.peerView = receiver.peerView) : sender'.Matches receiver' := by
  obtain ⟨addressed, known, settings, sealing⟩ := matching
  simp only [peerView, Prod.mk.injEq] at sends receives
  simp only [sealSettings, Prod.mk.injEq] at settings
  constructor
  · simpa only [sends, receives] using addressed
  · simpa only [sends, receives] using known
  · simpa only [sealSettings, Prod.mk.injEq, sends, receives] using settings
  · simpa only [sealKey, sends, receives] using sealing

theorem peerView_of_sealState {link other : Link RING}
    (same : other.sealState = link.sealState) : other.peerView = link.peerView := by
  simp only [sealState, Prod.mk.injEq] at same
  rw [peerView, same.1]
  rfl

theorem txCtr64_encode {link : Link RING} {cap : Nat} {flags seq : UInt8} {raw frame : Bytes}
    (encoded : (link.encode heatshrink cap flags seq raw).frame = some frame)
    (sealed : link.sealKey.isSome = true) :
    (link.encode heatshrink cap flags seq raw).link.txCtr64 = link.txCtr64 + 1 := by
  rcases link.encode_cases heatshrink cap flags seq raw with
    result | ⟨key, -, result⟩ | ⟨unkeyed, -⟩
  · rw [result] at encoded
    cases encoded
  · obtain ⟨persist, counted⟩ := { link with txCtr64 := link.txCtr64 + 1 }.maybePersist_link
    rw [result, counted]
  · rw [unkeyed] at sealed
    cases sealed

/-- A matching peer whose replay window is below the counter accepts whatever is encoded,
unless the counter wraps. -/
theorem onRx_encoded (inverts : heatshrink.Inverts) {PEER : Nat} {source : Link RING}
    {peer : Link PEER} (shortTag : source.cfg.tagLen.toNat ≤ tagMax)
    (matching : source.Matches peer) (under : peer.replayWindow.Under source.txCtr64)
    (known : peer.peerEpoch = 0 ∨ peer.peerEpoch = source.myEpoch) {cap : Nat}
    {flags seq : UInt8} (base : flags &&& (fData ||| fMore) = flags) {raw frame : Bytes}
    (short : raw.length ≤ maxPay)
    (encoded : (source.encode heatshrink cap flags seq raw).frame = some frame)
    (noWrap : source.txCtr64 ≤ (source.encode heatshrink cap flags seq raw).link.txCtr64) :
    ∃ seeded max window, (peer.onRx heatshrink frame).link = Link.accept { peer with
      peerEpoch := source.myEpoch, rxCtrInit := seeded, rxCtrMax := max, rxWindow := window }
        (source.wireHeader heatshrink flags seq raw) (some raw) := by
  obtain ⟨body, parsed⟩ := parseHeader_encode encoded
  have tracked := trackEpoch_known known
  have unseen : source.sealKey.isSome = true →
      ¬(peer.trackEpoch source.myEpoch).replayWindow.Seen (source.txCtr64 + 1) := by
    intro sealed
    rw [txCtr64_encode encoded sealed, UInt64.le_iff_toNat_le, UInt64.toNat_add] at noWrap
    rw [tracked]
    refine under.unseen ?_
    rw [UInt64.lt_iff_toNat_lt, UInt64.toNat_add]
    simp only [UInt64.toNat_one] at noWrap ⊢
    omega
  have opened := authenticate_matching inverts shortTag matching base short unseen encoded parsed
  obtain ⟨seeded, max, window, same⟩ := (peer.trackEpoch source.myEpoch).authenticate_link heatshrink
    frame (source.wireHeader heatshrink flags seq raw) body
  refine ⟨seeded, max, window, ?_⟩
  simp only [onRx, parsed, matching.passes, Bool.false_eq_true, if_false,
    show (source.wireHeader heatshrink flags seq raw).epoch = source.myEpoch from rfl, opened, same]
  rw [tracked]

end Link

/-! ### One direction -/

variable {S R : Nat} {heatshrink : Heatshrink}

namespace End

/-- Calls leave addresses, keys and the replay window alone. -/
theorem peerView_call (heatshrink : Heatshrink) (e : End S) (c : Call) :
    (e.call heatshrink c).link.peerView = e.link.peerView ∧
      (e.call heatshrink c).link.replayWindow = e.link.replayWindow := by
  cases c with
  | write d =>
      obtain ⟨ring, written⟩ := e.link.write_link d
      rw [End.call, written]
      exact ⟨rfl, rfl⟩
  | read max =>
      obtain ⟨_, _, _, _, _, taken⟩ := e.link.read_link max
      rw [End.call, taken]
      exact ⟨rfl, rfl⟩
  | nextTx cap now =>
      obtain ⟨_, _, _, _, _, _, _, _, _, sent⟩ := e.link.nextTx_link heatshrink cap now
      rw [End.call, sent]
      exact ⟨rfl, rfl⟩
  | makePoll cap =>
      obtain ⟨ctr, persist, sent⟩ := e.link.encode_link heatshrink cap 0 0 []
      rw [End.call, Link.makePoll, sent]
      exact ⟨rfl, rfl⟩
  | setTiming | takeGotData | takePeerReset | takeValidRx | setCtrlTx | setAuxTx | beginTurn =>
      exact ⟨rfl, rfl⟩

theorem canDrain_call {e : End S} (valid : e.link.Valid) (stopped : e.link.canDrain = false)
    (c : Call) : (e.call heatshrink c).link.canDrain = false := by
  have quiet : ∀ link : Link S, link.receiveView = e.link.receiveView → link.canDrain = false :=
    fun _ same => (Link.canDrain_of_receiveView same).trans stopped
  cases c with
  | write d =>
      obtain ⟨ring, written⟩ := e.link.write_link d
      exact quiet _ (by rw [End.call, written]; rfl)
  | read max =>
      obtain ⟨ring, wellFormed, -, left⟩ := Link.readLoop_spec max e.link valid.rRing
      refine Link.canDrain_drainInOrder ?_
      rw [left]
      exact wellFormed
  | nextTx cap now =>
      obtain ⟨_, _, _, _, _, _, _, _, _, sent⟩ := e.link.nextTx_link heatshrink cap now
      exact quiet _ (by rw [End.call, sent]; rfl)
  | makePoll cap =>
      obtain ⟨ctr, persist, sent⟩ := e.link.encode_link heatshrink cap 0 0 []
      exact quiet _ (by rw [End.call, Link.makePoll, sent]; rfl)
  | setTiming | takeGotData | takePeerReset | takeValidRx | setCtrlTx | setAuxTx | beginTurn =>
      exact quiet _ rfl

/-- A call emits frames up to its counter. -/
theorem sealedBelow_call {e : End S} (valid : e.link.Valid) (c : Call) {bytes : Bytes}
    (onAir : bytes ∈ (e.call heatshrink c).air) :
    bytes ∈ e.air ∨ SealedBelow (e.call heatshrink c).link.txCtr64 bytes := by
  cases c with
  | nextTx cap now =>
      refine (List.mem_append.mp onAir).imp id fun emitted => ?_
      exact (Link.nextTx_encodes valid (Option.mem_toList.mp emitted)).sealedBelow
  | makePoll cap =>
      refine (List.mem_append.mp onAir).imp id fun emitted => ?_
      exact (Link.makePoll_encodes (Option.mem_toList.mp emitted)).sealedBelow
  | write | read | setTiming | takeGotData | takePeerReset | takeValidRx | setCtrlTx | setAuxTx
  | beginTurn => exact Or.inl onAir

end End

/-- The receiver refuses no frame of the sender: the two match, and no counter above the
sender's was seen or is on the air. Nothing that fits the ring is held back. -/
structure Attuned (sender : End S) (receiver : End R) : Prop where
  matching : sender.link.Matches receiver.link
  under : receiver.link.replayWindow.Under sender.link.txCtr64
  onAir : ∀ bytes ∈ sender.air, SealedBelow sender.link.txCtr64 bytes
  stopped : receiver.link.canDrain = false

namespace Attuned

variable {sender : End S} {receiver : End R}

theorem call (attuned : Attuned sender receiver) (valid : sender.link.Valid) {c : Call}
    (noWrap : sender.link.txCtr64 ≤ (sender.call heatshrink c).link.txCtr64) :
    Attuned (sender.call heatshrink c) receiver where
  matching := attuned.matching.congr (sender.peerView_call heatshrink c).1 rfl
  under := attuned.under.mono noWrap
  onAir := fun _ member => (End.sealedBelow_call valid c member).elim
    (fun old => (attuned.onAir _ old).mono noWrap) id
  stopped := attuned.stopped

theorem call_peer (attuned : Attuned sender receiver) (valid : receiver.link.Valid) (c : Call) :
    Attuned sender (receiver.call heatshrink c) where
  matching := attuned.matching.congr rfl (receiver.peerView_call heatshrink c).1
  under := by
    rw [(receiver.peerView_call heatshrink c).2]
    exact attuned.under
  onAir := attuned.onAir
  stopped := End.canDrain_call valid attuned.stopped c

theorem lose (attuned : Attuned sender receiver) {air : List Bytes}
    (fewer : air.Sublist sender.air) : Attuned { sender with air := air } receiver :=
  { attuned with onAir := fun bytes member => attuned.onAir bytes (fewer.subset member) }

/-- The oldest frame of the sender arrives. -/
theorem deliver (attuned : Attuned sender receiver) (valid : receiver.link.Valid) {bytes : Bytes}
    {rest : List Bytes} (arrives : sender.air = bytes :: rest) :
    Attuned { sender with air := rest } (receiver.hear heatshrink bytes) where
  matching := attuned.matching.congr rfl
    (Link.peerView_of_sealState (Link.sealState_onRx heatshrink receiver.link bytes))
  under := Link.under_onRx attuned.under (attuned.onAir bytes (arrives ▸ List.mem_cons_self))
  onAir := fun later member =>
    attuned.onAir later (arrives ▸ List.mem_cons_of_mem bytes member)
  stopped := Link.canDrain_onRx valid.rRing attuned.stopped bytes

/-- The sender hears a frame. -/
theorem hear (attuned : Attuned sender receiver) (bytes : Bytes) (air : List Bytes) :
    Attuned (sender.hear heatshrink bytes) { receiver with air := air } := by
  have sealState := Link.sealState_onRx heatshrink sender.link bytes
  have ctr : (sender.hear heatshrink bytes).link.txCtr64 = sender.link.txCtr64 :=
    congrArg (fun state => state.2.2.1) sealState
  exact {
    matching := attuned.matching.congr (Link.peerView_of_sealState sealState) rfl
    under := by
      rw [ctr]
      exact attuned.under
    onAir := by
      rw [ctr]
      exact attuned.onAir
    stopped := attuned.stopped }

/-- The receiver accepts what a link with the sender's seal state encodes. -/
theorem hears (attuned : Attuned sender receiver) (inverts : heatshrink.Inverts)
    (shortTag : sender.link.cfg.tagLen.toNat ≤ tagMax)
    (known : receiver.link.peerEpoch = 0 ∨ receiver.link.peerEpoch = sender.link.myEpoch)
    {source : Link S} (seals : source.sealState = sender.link.sealState) {cap : Nat}
    {flags seq : UInt8} (base : flags &&& (fData ||| fMore) = flags) {raw frame : Bytes}
    (short : raw.length ≤ maxPay)
    (encoded : (source.encode heatshrink cap flags seq raw).frame = some frame)
    (noWrap : sender.link.txCtr64 ≤ (source.encode heatshrink cap flags seq raw).link.txCtr64) :
    ∃ seeded max window, (receiver.link.onRx heatshrink frame).link = Link.accept { receiver.link with
      peerEpoch := sender.link.myEpoch, rxCtrInit := seeded, rxCtrMax := max
      rxWindow := window } (source.wireHeader heatshrink flags seq raw) (some raw) := by
  have matching : source.Matches receiver.link :=
    attuned.matching.congr (Link.peerView_of_sealState seals) rfl
  simp only [Link.sealState, Prod.mk.injEq] at seals
  obtain ⟨cfg, epoch, ctr, -⟩ := seals
  rw [← epoch] at known ⊢
  rw [← ctr] at noWrap
  exact Link.onRx_encoded inverts (cfg ▸ shortTag) matching (ctr ▸ attuned.under) known base short
    encoded noWrap

end Attuned

/-! ### Two ends -/

namespace World

variable {A B : Nat}

/-- No frame counter steps back. -/
def NoWrap (heatshrink : Heatshrink) (w : World A B) (action : Action) : Prop :=
  w.a.link.txCtr64 ≤ (w.step heatshrink action).a.link.txCtr64 ∧
    w.b.link.txCtr64 ≤ (w.step heatshrink action).b.link.txCtr64

instance (heatshrink : Heatshrink) (w : World A B) (action : Action) :
    Decidable (w.NoWrap heatshrink action) :=
  inferInstanceAs (Decidable (_ ∧ _))

/-- A linked pair that refuses none of its own frames. -/
structure Paired (heatshrink : Heatshrink) (w : World A B) : Prop where
  linked : ∃ droppedA droppedB, w.Linked heatshrink droppedA droppedB
  ready : TurnReady w.a.link ∧ TurnReady w.b.link
  forth : Attuned w.a w.b
  back : Attuned w.b w.a

theorem ready_step (heatshrink : Heatshrink) {w : World A B}
    (ready : TurnReady w.a.link ∧ TurnReady w.b.link) (action : Action) :
    TurnReady (w.step heatshrink action).a.link ∧
      TurnReady (w.step heatshrink action).b.link := by
  obtain ⟨readyA, readyB⟩ := ready
  cases action with
  | call side c =>
      cases side with
      | a =>
          refine ⟨?_, readyB⟩
          rw [World.step, End.call_link]
          exact Link.turnReady_apply readyA heatshrink c.op
      | b =>
          refine ⟨readyA, ?_⟩
          rw [World.step, End.call_link]
          exact Link.turnReady_apply readyB heatshrink c.op
  | deliver sender =>
      cases sender with
      | a =>
          rw [World.step]
          split
          · exact ⟨readyA, readyB⟩
          next bytes _ _ => exact ⟨readyA, Link.turnReady_apply readyB heatshrink (.onRx bytes)⟩
      | b =>
          rw [World.step]
          split
          · exact ⟨readyA, readyB⟩
          next bytes _ _ => exact ⟨Link.turnReady_apply readyA heatshrink (.onRx bytes), readyB⟩
  | lose sender position => cases sender <;> exact ⟨readyA, readyB⟩

namespace Paired

variable {w : World A B}

theorem step (paired : w.Paired heatshrink) (inverts : heatshrink.Inverts) {action : Action}
    (noWrap : w.NoWrap heatshrink action) : (w.step heatshrink action).Paired heatshrink := by
  have linked : ∃ droppedA droppedB,
      (w.step heatshrink action).Linked heatshrink droppedA droppedB := by
    obtain ⟨_, _, linked⟩ := paired.linked
    exact ⟨_, _, linked.step inverts action⟩
  have ready := ready_step heatshrink paired.ready action
  obtain ⟨⟨validA, -, -⟩, ⟨validB, -, -⟩⟩ := paired.ready
  have forth := paired.forth
  have back := paired.back
  cases action with
  | call side c =>
      cases side with
      | a => exact ⟨linked, ready, forth.call validA noWrap.1, back.call_peer validA c⟩
      | b => exact ⟨linked, ready, forth.call_peer validB c, back.call validB noWrap.2⟩
  | deliver sender =>
      cases sender with
      | a =>
          refine ⟨linked, ready, ?_, ?_⟩ <;> rw [World.step] <;> split
          · exact forth
          next arrives => exact forth.deliver validB arrives
          · exact back
          · exact back.hear _ _
      | b =>
          refine ⟨linked, ready, ?_, ?_⟩ <;> rw [World.step] <;> split
          · exact forth
          · exact forth.hear _ _
          · exact back
          next arrives => exact back.deliver validA arrives
  | lose sender position =>
      cases sender with
      | a => exact ⟨linked, ready, forth.lose (List.eraseIdx_sublist _ _), { back with }⟩
      | b => exact ⟨linked, ready, { forth with }, back.lose (List.eraseIdx_sublist _ _)⟩

theorem run (paired : w.Paired heatshrink) (inverts : heatshrink.Inverts) {actions : List Action}
    (noWrap : Run.Along (World.step heatshrink) (World.NoWrap heatshrink) w actions) :
    (w.run heatshrink actions).Paired heatshrink :=
  noWrap.invariant_foldl (fun _ _ paired noWrap => paired.step inverts noWrap) paired

theorem start (positiveA : 0 < A) (positiveB : 0 < B) (memoryA : Link A) (memoryB : Link B)
    {configA configB : Config} (forth : (memoryA.init configA).Matches (memoryB.init configB))
    (back : (memoryB.init configB).Matches (memoryA.init configA)) :
    (World.start memoryA memoryB configA configB).Paired heatshrink where
  linked := by
    have settings := forth.settings
    simp only [Link.sealSettings, Prod.mk.injEq] at settings
    exact ⟨_, _, Half.start positiveA positiveB memoryA memoryB settings.1 settings.2,
      Half.start positiveB positiveA memoryB memoryA settings.1.symm settings.2.symm⟩
  ready := ⟨Link.turnReady_run_init positiveA heatshrink memoryA configA [],
    Link.turnReady_run_init positiveB heatshrink memoryB configB []⟩
  forth := ⟨forth, nofun, fun _ member => absurd member List.not_mem_nil,
    Link.canDrain_of_empty fun _ => rfl⟩
  back := ⟨back, nofun, fun _ member => absurd member List.not_mem_nil,
    Link.canDrain_of_empty fun _ => rfl⟩

end Paired

end World

end LoraSerial.LinkLayer
