import LoraSerial.LinkLayer.Footprint
import LoraSerial.LinkLayer.Operation

/-!
Owns which frames a link accepts, stated on the frame and the link alone, and which
calls write the received control bits.
-/

namespace LoraSerial.LinkLayer

/-- The control bits in the header of a frame. -/
def ctrlOf (input : Bytes) : UInt8 :=
  match parseHeader input with
  | none => 0
  | some (h, _) => h.flags &&& ctrlMask

namespace Link

variable {RING : Nat}

/-- The tag opens under the link's key, the counter is new and the payload decodes. -/
def opens (heatshrink : Heatshrink) (link : Link RING) (h : Header) (s : Sealed) : Bool :=
  match link.cfg.key with
  | none => false
  | some key =>
      match ascon128Decrypt key (buildNonce h.src h.epoch s.ctr) s.ad s.ct s.tag with
      | none => false
      | some buf => (link.replayOk s.ctr).1 && (decodePayload heatshrink h.flags buf).isSome

/-- A frame from the peer to this link: addressed to it, and sealed under its key with a
new counter, or plain where the link takes plain frames. -/
def genuine (heatshrink : Heatshrink) (link : Link RING) (input : Bytes) : Bool :=
  match parseHeader input with
  | none => false
  | some (h, body) =>
      !link.filters h &&
        if hasFlag h.flags fEnc then
          match splitSealed link.cfg.tagLen.toNat input h body with
          | none => false
          | some s => (link.trackEpoch h.epoch).opens heatshrink h s
        else !link.cfg.encrypt

variable {heatshrink : Heatshrink} {link : Link RING}

theorem opens_iff (h : Header) (s : Sealed) :
    link.opens heatshrink h s = true ↔ ∃ payload, (link.aeadOpen heatshrink h s).2 = .ok payload := by
  unfold opens aeadOpen
  cases link.cfg.key with
  | none => simp
  | some key =>
      dsimp only
      cases ascon128Decrypt key (buildNonce h.src h.epoch s.ctr) s.ad s.ct s.tag with
      | none => simp
      | some buf =>
          dsimp only
          by_cases fresh : (link.replayOk s.ctr).1 = true
          · rw [if_pos fresh, fresh, Bool.true_and]
            cases decodePayload heatshrink h.flags buf <;> simp
          · rw [if_neg fresh, Bool.eq_false_iff.mpr fresh]
            simp

theorem cfg_trackEpoch (link : Link RING) (epoch : UInt8) :
    (link.trackEpoch epoch).cfg = link.cfg := by
  rcases link.trackEpoch_cases epoch with ⟨tracked, -⟩ | ⟨tracked, -⟩ <;>
    simp only [tracked, resync]

theorem rxCtrl_trackEpoch (link : Link RING) (epoch : UInt8) :
    (link.trackEpoch epoch).rxCtrl = link.rxCtrl := by
  rcases link.trackEpoch_cases epoch with ⟨tracked, -⟩ | ⟨tracked, -⟩ <;>
    simp only [tracked, resync]

/-- Authentication succeeds on exactly the sealed frames that open and, on a link that
takes them, the plain ones. -/
theorem authenticate_ok_iff (heatshrink : Heatshrink) (link : Link RING) (input : Bytes)
    (h : Header) (body : Bytes) :
    (∃ decoded, (link.authenticate heatshrink input h body).2 = .ok decoded) ↔
      (if hasFlag h.flags fEnc then
        match splitSealed link.cfg.tagLen.toNat input h body with
        | none => false
        | some s => link.opens heatshrink h s
      else !link.cfg.encrypt) = true := by
  unfold authenticate
  by_cases sealedFrame : hasFlag h.flags fEnc = true
  · rw [if_pos sealedFrame, sealedFrame, Bool.not_true, Bool.and_false, if_neg Bool.false_ne_true,
      if_pos rfl]
    cases splitSealed link.cfg.tagLen.toNat input h body with
    | none => simp
    | some s =>
        dsimp only
        rw [opens_iff]
        cases (link.aeadOpen heatshrink h s).2 <;> simp
  · rw [if_neg sealedFrame, Bool.eq_false_iff.mpr sealedFrame, Bool.not_false, Bool.and_true]
    cases link.cfg.encrypt <;> simp

theorem accepted_iff_genuine (input : Bytes) :
    (link.onRx heatshrink input).exit = .accepted ↔ link.genuine heatshrink input = true := by
  unfold onRx genuine
  cases parseHeader input with
  | none => simp
  | some pair =>
      obtain ⟨h, body⟩ := pair
      dsimp only
      cases filtered : link.filters h with
      | true => simp
      | false =>
          have admitted := (link.trackEpoch h.epoch).authenticate_ok_iff heatshrink input h body
          rw [cfg_trackEpoch] at admitted
          rw [Bool.not_false, Bool.true_and, ← admitted, if_neg Bool.false_ne_true]
          have never := (link.trackEpoch h.epoch).authenticate_ne_accepted heatshrink input h body
          cases authentic : ((link.trackEpoch h.epoch).authenticate heatshrink input h body).2 with
          | ok decoded => simp
          | error exit =>
              rw [authentic] at never
              simpa using fun same : exit = .accepted => never (congrArg Except.error same)

/-! ### The received control bits -/

theorem rxCtrl_accept (h : Header) (decoded : Option Bytes) :
    (link.accept h decoded).rxCtrl = h.flags &&& ctrlMask := by
  have acked : ∀ link : Link RING, (link.ackProcess h.ack h.sack).rxCtrl = link.rxCtrl := by
    intro link
    obtain ⟨win, marked⟩ := link.markCumulative_link h.ack
    simp only [ackProcess, slideWindow, marked]
  unfold accept
  dsimp only
  split
  · obtain ⟨ring, dropped, rx, next, got, owed, received⟩ := receiveData_link
      (({ link with rxCtrl := h.flags &&& ctrlMask, rxAux := h.aux, gotValidRx := true } :
        Link RING).ackProcess h.ack h.sack) h.seq decoded
    rw [received]
    exact acked _
  · exact acked _

/-- An accepted frame leaves its control bits, any other leaves what was there. -/
theorem rxCtrl_onRx_cases (heatshrink : Heatshrink) (link : Link RING) (input : Bytes) :
    (link.onRx heatshrink input).exit = .accepted ∧
        (link.onRx heatshrink input).link.rxCtrl = ctrlOf input ∨
      (link.onRx heatshrink input).exit ≠ .accepted ∧
        (link.onRx heatshrink input).link.rxCtrl = link.rxCtrl := by
  unfold onRx ctrlOf
  cases parseHeader input with
  | none => exact Or.inr ⟨nofun, rfl⟩
  | some pair =>
      obtain ⟨h, body⟩ := pair
      dsimp only
      split
      · exact Or.inr ⟨nofun, rfl⟩
      · have never := (link.trackEpoch h.epoch).authenticate_ne_accepted heatshrink input h body
        obtain ⟨seeded, max, window, opened⟩ :=
          (link.trackEpoch h.epoch).authenticate_link heatshrink input h body
        split
        next exit refused =>
          refine Or.inr ⟨fun same => ?_, ?_⟩
          · obtain rfl : exit = .accepted := same
            exact never refused
          · rw [opened]
            exact link.rxCtrl_trackEpoch h.epoch
        next decoded authentic => exact Or.inl ⟨rfl, rxCtrl_accept h decoded⟩

theorem rxCtrl_onRx (heatshrink : Heatshrink) (link : Link RING) (input : Bytes) :
    (link.onRx heatshrink input).link.rxCtrl =
      if link.genuine heatshrink input then ctrlOf input else link.rxCtrl := by
  rcases rxCtrl_onRx_cases heatshrink link input with ⟨accepted, own⟩ | ⟨refused, kept⟩
  · rw [own, if_pos (accepted_iff_genuine input |>.mp accepted)]
  · rw [kept, if_neg (mt (accepted_iff_genuine input).mpr refused)]

end Link

/-- A call that clears the received control bits. -/
def Op.restarts : Op → Bool
  | .init _ | .newSession => true
  | _ => false

namespace Link

variable {RING : Nat}

/-- The calls other than `OnRx` clear the control bits or leave them. -/
theorem rxCtrl_apply (heatshrink : Heatshrink) (link : Link RING) {op : Op}
    (own : ∀ input, op ≠ .onRx input) :
    (link.apply heatshrink op).rxCtrl = if op.restarts then 0 else link.rxCtrl := by
  cases op with
  | onRx input => exact absurd rfl (own input)
  | init | newSession | setTiming | takeGotData | takePeerReset | takeValidRx | setCtrlTx
  | setAuxTx | beginTurn => rfl
  | write d =>
      obtain ⟨ring, written⟩ := link.write_link d
      simp [apply, Op.restarts, written]
  | read max =>
      obtain ⟨ring, dropped, rx, next, got, taken⟩ := link.read_link max
      simp [apply, Op.restarts, taken]
  | nextTx cap now =>
      obtain ⟨ring, win, next, owed, lone, sent, resent, ctr, persist, offered⟩ :=
        link.nextTx_link heatshrink cap now
      simp [apply, Op.restarts, offered]
  | makePoll cap =>
      obtain ⟨ctr, persist, encoded⟩ := link.encode_link heatshrink cap 0 0 []
      simp [apply, Op.restarts, makePoll, encoded]

end Link

end LoraSerial.LinkLayer
