import LoraSerial.LinkLayer.Codec
import LoraSerial.LinkLayer.Replay

/-!
Owns what a transmission, data or poll, does with the frame counter: it emits
nothing, or seals one frame under the next counter and perhaps saves that counter,
or emits one plaintext frame. The window plays no part in this.
-/

namespace LoraSerial.LinkLayer

open Library Library.WordBytes

/-- The counter on the wire is the one the frame was sealed with. -/
theorem frameNonce_sealFrame (key : Key) (tagLen : Nat) (h : Header) (ctr : UInt64) (p : Bytes) :
    frameNonce (sealFrame key tagLen h ctr p) = some (h.src, h.epoch, ctr) := by
  have counter : loadBe (storeBe ctrW ctr) = ctr := loadBe_storeBe ctr
  rw [frameNonce, sealFrame_eq, parseHeader_headerBytes]
  simp only [take_sealedBody, counter]

namespace Link

variable {RING : Nat}

/-- What sealing reads and writes. -/
def sealState (link : Link RING) : Config × UInt8 × UInt64 × UInt64 :=
  (link.cfg, link.myEpoch, link.txCtr64, link.lastPersist)

/-- The link after it took the next counter, and the value it saved. -/
def nextCounter (link : Link RING) : Link RING × Option UInt64 :=
  { link with txCtr64 := link.txCtr64 + 1 }.maybePersist

/-- The outcomes of a transmission. -/
inductive Transmits (link : Link RING) (sent : TxResult RING) : Prop where
  | silent (frame : sent.frame = none) (persisted : sent.persisted = none)
      (state : sent.link.sealState = link.sealState)
  | sealed (key : Key) (h : Header) (p : Bytes) (keyed : link.sealKey = some key)
      (src : h.src = link.cfg.addr) (epoch : h.epoch = link.myEpoch)
      (frame : sent.frame =
        some (sealFrame key link.cfg.tagLen.toNat h (link.txCtr64 + 1) p))
      (persisted : sent.persisted = link.nextCounter.2)
      (state : sent.link.sealState = link.nextCounter.1.sealState)
  | plain (h : Header) (p : Bytes) (unkeyed : link.sealKey = none)
      (src : h.src = link.cfg.addr) (epoch : h.epoch = link.myEpoch)
      (frame : sent.frame = some (headerBytes h ++ p)) (persisted : sent.persisted = none)
      (state : sent.link.sealState = link.sealState)

theorem encode_transmits (heatshrink : Heatshrink) (link : Link RING) (cap : Nat)
    (flags seq : UInt8) (raw : Bytes) :
    link.Transmits (link.encode heatshrink cap flags seq raw) := by
  rcases link.encode_cases heatshrink cap flags seq raw with
    result | ⟨key, keyed, result⟩ | ⟨unkeyed, result⟩ <;> rw [result]
  · exact .silent rfl rfl rfl
  · exact .sealed key _ _ keyed rfl rfl rfl rfl rfl
  · exact .plain _ _ unkeyed rfl rfl rfl rfl rfl

theorem nextCounter_state {base link : Link RING} (same : base.sealState = link.sealState) :
    base.nextCounter.2 = link.nextCounter.2 ∧
      base.nextCounter.1.sealState = link.nextCounter.1.sealState := by
  simp only [sealState, Prod.mk.injEq] at same
  obtain ⟨cfg, epoch, ctr, persist⟩ := same
  simp only [nextCounter, maybePersist, cfg, ctr, persist]
  split <;> exact ⟨rfl, by simp only [sealState, epoch]⟩

/-- A transmission depends on the seal state only. -/
theorem Transmits.of_sealState {base link : Link RING} {sent result : TxResult RING}
    (transmits : base.Transmits sent) (same : base.sealState = link.sealState)
    (frame : result.frame = sent.frame) (persisted : result.persisted = sent.persisted)
    (state : result.link.sealState = sent.link.sealState) : link.Transmits result := by
  obtain ⟨counted, countedState⟩ := nextCounter_state same
  simp only [sealState, Prod.mk.injEq] at same
  obtain ⟨cfg, epoch, ctr, persist⟩ := same
  have sealKey : base.sealKey = link.sealKey := by simp only [Link.sealKey, cfg]
  have seals : base.sealState = link.sealState := by simp only [sealState, cfg, epoch, ctr, persist]
  cases transmits with
  | silent noFrame nothing kept =>
      exact .silent (frame.trans noFrame) (persisted.trans nothing)
        ((state.trans kept).trans seals)
  | sealed key h p keyed src sender bytes saved kept =>
      refine .sealed key h p (sealKey ▸ keyed) (cfg ▸ src) (epoch ▸ sender) ?_
        ((persisted.trans saved).trans counted) ((state.trans kept).trans countedState)
      rw [frame, bytes, cfg, ctr]
  | plain h p unkeyed src sender bytes nothing kept =>
      exact .plain h p (sealKey ▸ unkeyed) (cfg ▸ src) (epoch ▸ sender) (frame.trans bytes)
        (persisted.trans nothing) ((state.trans kept).trans seals)

theorem makePoll_transmits (heatshrink : Heatshrink) (link : Link RING) (cap : Nat) :
    link.Transmits (link.makePoll heatshrink cap) :=
  link.encode_transmits heatshrink cap 0 0 []

theorem nextTx_transmits (heatshrink : Heatshrink) (link : Link RING) (cap : Nat)
    (now : UInt32) : link.Transmits (link.nextTx heatshrink cap now) := by
  obtain ⟨ring, win, next, filled⟩ := link.fillWindow_link
  simp only [nextTx, filled]
  split
  next f pick _ =>
    have encoded := fun flags => encode_transmits heatshrink
      ({ link with sRing := ring, win := win, nextSeq := next }.markSent now f pick) cap flags
      f.seq f.raw
    exact (encoded _).of_sealState rfl rfl rfl rfl
  next =>
    split
    · have encoded := encode_transmits heatshrink
        { link with
          sRing := ring, win := win, nextSeq := next, ackSentTurn := true, ackPending := false }
        cap 0 0 []
      exact encoded.of_sealState rfl rfl rfl rfl
    · exact .silent rfl rfl rfl

/-- Receiving touches nothing that sealing reads. -/
theorem sealState_onRx (heatshrink : Heatshrink) (link : Link RING) (input : Bytes) :
    (link.onRx heatshrink input).link.sealState = link.sealState := by
  obtain ⟨_, _, _, _, _, _, _, _, _, _, _, _, _, _, _, _, _, heard⟩ := link.onRx_link heatshrink input
  rw [heard]
  rfl

end Link

end LoraSerial.LinkLayer
