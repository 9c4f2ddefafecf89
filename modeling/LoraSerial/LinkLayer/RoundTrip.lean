import LoraSerial.LinkLayer.Admission
import LoraSerial.LinkLayer.Codec
import LoraSerial.LinkLayer.Replay

/-!
Owns the whole path of one frame: `Encode` into a buffer of `maxFrame` bytes, and `OnRx` of
a matching receiver back to the payload and every header field. Does not own what the
receiver then does with the frame.
-/

namespace LoraSerial.LinkLayer

open Library Library.WordBytes

/-! ### Length -/

theorem length_sealFrame {key : Key} {tagLen : Nat} (h : Header) (ctr : UInt64) (p : Bytes)
    (shortTag : tagLen ≤ tagMax) :
    (sealFrame key tagLen h ctr p).length = hdr + ctrW + p.length + tagLen := by
  unfold tagMax at shortTag
  simp only [sealFrame, List.length_append, length_headerBytes, length_storeBe,
    length_ascon128Encrypt, List.length_take, length_ascon128Encrypt_tag]
  omega

namespace Link

variable {RING : Nat}

theorem length_encode_le {heatshrink : Heatshrink} {link : Link RING} {cap : Nat}
    {flags seq : UInt8} {raw frame : Bytes} (short : raw.length ≤ maxPay)
    (shortTag : link.cfg.tagLen.toNat ≤ tagMax)
    (encoded : (link.encode heatshrink cap flags seq raw).frame = some frame) :
    frame.length ≤ maxFrame := by
  have packed := (link.length_packPayload_le heatshrink flags raw).trans short
  unfold maxFrame
  rcases link.encode_cases heatshrink cap flags seq raw with
    result | ⟨key, -, result⟩ | ⟨-, result⟩ <;> rw [result] at encoded <;> cases encoded
  · rw [length_sealFrame _ _ _ shortTag]
    omega
  · rw [List.length_append, length_headerBytes]
    omega

theorem encode_maxFrame (heatshrink : Heatshrink) (link : Link RING)
    (shortTag : link.cfg.tagLen.toNat ≤ tagMax) (flags seq : UInt8) {raw : Bytes}
    (short : raw.length ≤ maxPay) :
    ∃ frame, (link.encode heatshrink maxFrame flags seq raw).frame = some frame := by
  have packed := (link.length_packPayload_le heatshrink flags raw).trans short
  simp only [encode]
  split
  · rw [if_neg (by unfold maxFrame; omega)]
    exact ⟨_, rfl⟩
  · rw [if_neg (by unfold maxFrame; omega)]
    exact ⟨_, rfl⟩

end Link

/-! ### Flags -/

/-- A flag outside the ones a caller sets. -/
theorem hasFlag_base {flags flag base : UInt8} (only : flags &&& base = flags)
    (other : base &&& flag = 0) : hasFlag flags flag = false := by
  rw [hasFlag, ← only, UInt8.and_assoc, other, UInt8.and_zero]
  rfl

theorem and_or_mask (left right mask : UInt8) :
    (left ||| right) &&& mask = (left &&& mask) ||| (right &&& mask) := by
  apply UInt8.toNat_inj.mp
  simp only [UInt8.toNat_and, UInt8.toNat_or, Nat.and_or_distrib_right]

namespace Link

variable {RING : Nat}

/-- The control nibble is the sender's: none of the frame flags reaches into it. -/
theorem ctrl_wireHeader (heatshrink : Heatshrink) (link : Link RING) {flags : UInt8}
    (seq : UInt8) (raw : Bytes) (base : flags &&& (fData ||| fMore) = flags) :
    (link.wireHeader heatshrink flags seq raw).flags &&& ctrlMask = link.txCtrl &&& ctrlMask := by
  have caller : flags &&& ctrlMask = 0 := by
    rw [← base, UInt8.and_assoc, show (fData ||| fMore) &&& ctrlMask = 0 by decide, UInt8.and_zero]
  have packed : (link.packPayload heatshrink flags raw).1 &&& ctrlMask = 0 := by
    rcases link.packPayload_cases heatshrink flags raw with same | ⟨c, -, -, same⟩ <;> rw [same]
    · exact caller
    · rw [and_or_mask, caller, show fComp &&& ctrlMask = 0 by decide, UInt8.or_zero]
  have framed : (if link.sealKey.isSome then (link.packPayload heatshrink flags raw).1 ||| fEnc
      else (link.packPayload heatshrink flags raw).1) &&& ctrlMask = 0 := by
    split
    · rw [and_or_mask, packed, show fEnc &&& ctrlMask = 0 by decide, UInt8.or_zero]
    · exact packed
  simp only [wireHeader, frameHeader]
  rw [and_or_mask, framed, UInt8.zero_or, UInt8.and_assoc, UInt8.and_self]

/-! ### Matching ends -/

/-- The receiver listens to the sender's address, and shares its key settings. -/
structure Matches {PEER : Nat} (sender : Link RING) (receiver : Link PEER) : Prop where
  addressed : sender.cfg.peer = 0 ∨ sender.cfg.peer = addrBcast ∨
    sender.cfg.peer = receiver.cfg.addr
  known : receiver.cfg.peer = 0 ∨ receiver.cfg.peer = sender.cfg.addr
  settings : receiver.sealSettings = sender.sealSettings
  sealing : receiver.cfg.encrypt = true → sender.sealKey.isSome = true

theorem Matches.passes {PEER : Nat} {sender : Link RING} {receiver : Link PEER}
    (matching : sender.Matches receiver) (heatshrink : Heatshrink) (flags seq : UInt8)
    (raw : Bytes) :
    receiver.filters (sender.wireHeader heatshrink flags seq raw) = false := by
  simp only [filters, wireHeader, frameHeader]
  have toPeer := matching.addressed
  have fromPeer := matching.known
  grind [addrBcast]

/-- A matching receiver opens whatever its peer encodes, unless its replay window has seen
the counter. -/
theorem authenticate_matching {heatshrink : Heatshrink} (inverts : heatshrink.Inverts)
    {PEER : Nat} {sender : Link RING} {receiver : Link PEER}
    (shortTag : sender.cfg.tagLen.toNat ≤ tagMax) (matching : sender.Matches receiver) {cap : Nat}
    {flags seq : UInt8} (base : flags &&& (fData ||| fMore) = flags) {raw frame body : Bytes}
    {h : Header} (short : raw.length ≤ maxPay)
    (unseen : sender.sealKey.isSome = true →
      ¬(receiver.trackEpoch sender.myEpoch).replayWindow.Seen (sender.txCtr64 + 1))
    (encoded : (sender.encode heatshrink cap flags seq raw).frame = some frame)
    (parsed : parseHeader frame = some (h, body)) :
    ((receiver.trackEpoch sender.myEpoch).authenticate heatshrink frame h body).2 =
      .ok (some raw) := by
  have settings : (receiver.trackEpoch sender.myEpoch).sealSettings = sender.sealSettings := by
    rw [sealSettings, cfg_trackEpoch]
    exact matching.settings
  rw [authenticate_encoded inverts settings shortTag short (hasFlag_base base (by decide))
    (hasFlag_base base (by decide)) encoded parsed, cfg_trackEpoch]
  split
  next sealed =>
    cases fresh : ((receiver.trackEpoch sender.myEpoch).replayOk (sender.txCtr64 + 1)).1 with
    | true => rfl
    | false =>
        rw [replayOk_eq] at fresh
        exact absurd (ReplayWindow.seen_of_refused fresh) (unseen sealed)
  next plain =>
    rw [if_neg fun encrypts => plain (matching.sealing encrypts)]

/-- What the header of a received frame says of its sender. -/
structure Carried (sender : Link RING) (seq : UInt8) (h : Header) : Prop where
  seq_eq : h.seq = seq
  ack : h.ack = sender.rxNext
  sack : h.sack = sender.sackBitmap
  epoch : h.epoch = sender.myEpoch
  ctrl : h.flags &&& ctrlMask = sender.txCtrl &&& ctrlMask
  aux : h.aux = sender.txAux

/-- Whatever a link encodes, a matching receiver recovers: the payload, the sequence
number, ack, SACK bitmap, epoch, control nibble and telemetry byte, unless its replay
window has seen the counter or moved past it. -/
theorem frame_roundTrip {heatshrink : Heatshrink} (inverts : heatshrink.Inverts) {PEER : Nat}
    {sender : Link RING} {receiver : Link PEER} (shortTag : sender.cfg.tagLen.toNat ≤ tagMax)
    (matching : sender.Matches receiver) {flags : UInt8}
    (base : flags &&& (fData ||| fMore) = flags) (seq : UInt8) {raw : Bytes}
    (short : raw.length ≤ maxPay)
    (unseen : sender.sealKey.isSome = true →
      ¬(receiver.trackEpoch sender.myEpoch).replayWindow.Seen (sender.txCtr64 + 1)) :
    ∃ frame h body, (sender.encode heatshrink maxFrame flags seq raw).frame = some frame ∧
      frame.length ≤ 255 ∧ parseHeader frame = some (h, body) ∧ sender.Carried seq h ∧
      ((receiver.trackEpoch h.epoch).authenticate heatshrink frame h body).2 = .ok (some raw) ∧
      receiver.onRx heatshrink frame =
        ⟨((receiver.trackEpoch h.epoch).authenticate heatshrink frame h body).1.accept h
          (some raw), .accepted, !hasFlag flags fMore⟩ := by
  obtain ⟨frame, encoded⟩ := encode_maxFrame heatshrink sender shortTag flags seq short
  obtain ⟨body, parsed⟩ := parseHeader_encode encoded
  have opened := authenticate_matching inverts shortTag matching base short unseen encoded parsed
  refine ⟨frame, sender.wireHeader heatshrink flags seq raw, body, encoded,
    length_encode_le short shortTag encoded, parsed,
    ⟨rfl, rfl, rfl, rfl, sender.ctrl_wireHeader heatshrink seq raw base, rfl⟩, opened, ?_⟩
  have more : hasFlag (sender.wireHeader heatshrink flags seq raw).flags fMore =
      hasFlag flags fMore := by
    rw [hasFlag_wireHeader _ _ _ _ _ (by decide), hasFlag_packPayload _ _ _ _ (by decide),
      show hasFlag fEnc fMore = false by decide, Bool.and_false, Bool.or_false]
  simp only [onRx, parsed, matching.passes, Bool.false_eq_true, if_false,
    show (sender.wireHeader heatshrink flags seq raw).epoch = sender.myEpoch from rfl, opened, more]

end Link

/-! ### A counter the window has moved past -/

/-- The poll sealed by end 2 with a given counter. -/
def pollFrom (start : UInt64) : Bytes :=
  (((Link.zeroed .default : Link 64).init
    { Receiver.sharedKeyConfig 2 9 with startCtr := start }).makePoll .copying maxFrame).frame.getD []

/-- End 1 before its first frame. -/
def listening : Receiver 64 :=
  Receiver.start (Link.zeroed .default) (Receiver.sharedKeyConfig 1 1)

namespace Link

/-- Counter 1 is taken at first, but not after counter 100, though it was never seen. -/
theorem unseen_counter_refused :
    (listening.link.onRx .copying (pollFrom 0)).exit = .accepted ∧
      (listening.run .copying [.onRx (pollFrom 99)]).accepted = [(2, 9, 100)] ∧
      ((listening.run .copying [.onRx (pollFrom 99)]).link.onRx .copying (pollFrom 0)).exit =
        .replayed := by
  decide +kernel

end Link

end LoraSerial.LinkLayer
